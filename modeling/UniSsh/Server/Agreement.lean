import UniSsh.Server.Acl
import UniSsh.Sync.VerifyBeforeApply

/-!
# Clients and the server on authorship

A client decides who may write by the chain of manifests, the server by the manifest stored for
the object's own epoch and otherwise by the owner. So the server refuses an admin's next manifest.
-/

namespace UniSsh.Server

open EStateM run_bind List

variable {P : Primitives} {db : Db} {s : Storage}

/-! ## The member set of a manifest -/

/-- A member as the server keeps it. -/
def memberEntry (m : Member) : Bytes × MemberRole := (m.ed25519Pub, m.role)

variable {failure : AppError} {b : Bytes} {members : List Member}

theorem take_run (enough : n ≤ b.length) :
    (Reader.take failure n).run b = .ok (b.take n) (b.drop n) := by
  change (if b.length < n then _ else _) = _
  rw [if_neg (by omega)]

theorem u64_run (enough : 8 ≤ b.length) :
    (Reader.u64 failure).run b = .ok (.ofNat (ofBeBytes (b.take 8))) (b.drop 8) := by
  unfold Reader.u64
  rw [run_bind, take_run enough]
  rfl

theorem u32_run (enough : 4 ≤ b.length) :
    (Reader.u32 failure).run b = .ok (.ofNat (ofBeBytes (b.take 4))) (b.drop 4) := by
  unfold Reader.u32
  rw [run_bind, take_run enough]
  rfl

theorem readMembers_run {count : Nat} (parsed : parseMembers count p = .ok members) :
    (readMembers count).run p = .ok (members.map memberEntry) [] := by
  refine parseMembers_induction ?_ ?_ parsed
  · rfl
  intro count roleByte role hi lo p _ isRole enough ih
  have first : readMember.run (roleByte :: hi :: lo :: p) =
      .ok (p.take (ofBeBytes [hi, lo]), role) (p.drop (ofBeBytes [hi, lo])) := by
    unfold readMember
    rw [run_bind]
    change EStateM.run (Reader.take manifestErr 2 >>= _) (hi :: lo :: p) = _
    rw [run_bind, isRole]
    change EStateM.run (Reader.take manifestErr (ofBeBytes [hi, lo]) >>= _) p = _
    rw [run_bind, take_run enough]
    rfl
  change EStateM.run (readMember >>= fun m => readMembers count >>= fun rest =>
    pure (m :: rest)) _ = _
  rw [run_bind, first]
  dsimp only
  rw [run_bind, ih]
  rfl

/-- The server reads the member set a client reads. -/
theorem parseMemberSet_of_payload (parsed : parseMemberPayload keyEpoch blob = .ok members) :
    parseMemberSet blob = .ok { keyEpoch, members := members.map memberEntry } := by
  obtain ⟨long, isDomain, isEpoch, parsed⟩ := parseMemberPayload_eq_ok parsed
  have domain := @take_run manifestErr blob manifestDomain.length (by omega)
  have epoch := @u64_run manifestErr (blob.drop manifestDomain.length)
    (by rw [length_drop]; omega)
  have count := @u32_run manifestErr (blob.drop (manifestDomain.length + 8))
    (by rw [length_drop]; omega)
  rw [drop_drop] at epoch count
  have isCount : (UInt32.ofNat (ofBeBytes
      ((blob.drop (manifestDomain.length + 8)).take 4))).toNat =
      ofBeBytes ((blob.drop (manifestDomain.length + 8)).take 4) := by
    have bound := ofBeBytes_lt ((blob.drop (manifestDomain.length + 8)).take 4)
    rw [length_take, length_drop, Nat.min_eq_left (by omega)] at bound
    exact UInt32.toNat_ofNat_of_lt' bound
  refine (Reader.finish_eq_ok manifestErr).mpr ?_
  unfold readMemberSet
  rw [run_bind, domain]
  dsimp only
  rw [if_neg (not_not.mpr isDomain), run_bind, epoch]
  dsimp only
  rw [run_bind, count]
  dsimp only
  rw [isCount, run_bind, readMembers_run parsed, isEpoch, UInt64.ofNat_toNat]
  rfl

/-! ## What a client accepts -/

/-- The client holds every manifest of the vault that the server stored. -/
def Mirrors (s : Storage) (db : Db) (vaultId : Bytes) : Prop :=
  ∀ (e : SqlInt) row, db.manifests[(vaultId, e)]? = some row →
    ∃ copy, s.membershipManifests[(vaultId, e)]? = some copy ∧
      copy.manifestBlob = row.manifestBlob ∧ copy.signature = row.signature ∧
      copy.authorPubkey = row.authorPubkey

/-- An item, a manifest or a grant that a client accepts, with the owner as its anchor. -/
inductive ClientAccepts (P : Primitives) (s : Storage) (owner : Bytes) : SyncObject → Prop where
  | item (i : ItemRecord) (authorized :
      verifyRecordAuthority P s i.vaultId i.authorPubkey i.keyEpoch owner = .ok ()) :
      ClientAccepts P s owner (.item i)
  | manifest (m : MembershipManifest) (s' : Storage) (members : VerifiedMembers)
      (absent : s.getMembershipManifest m.vaultId m.keyEpoch = .ok none)
      (stored : s.putMembershipManifest m = .ok s')
      (chain : verifyChainToEpoch P s' m.vaultId m.keyEpoch owner = .ok members) :
      ClientAccepts P s owner (.membershipManifest m)
  | sameManifest (m held : MembershipManifest) (members : VerifiedMembers)
      (present : s.getMembershipManifest m.vaultId m.keyEpoch = .ok (some held))
      (same : manifestContentEq held m = true)
      (chain : verifyChainToEpoch P s m.vaultId m.keyEpoch owner = .ok members) :
      ClientAccepts P s owner (.membershipManifest m)
  | grant (g : MembershipGrant) (members : VerifiedMembers)
      (chain : verifyChainToEpoch P s g.vaultId g.keyEpoch owner = .ok members)
      (verified : verifyGrant P g g.vaultId members = .ok ()) :
      ClientAccepts P s owner (.membershipGrant g)

/-- What the columns the server parses of an object say: its kind, vault, epoch and author. -/
structure Columns where
  tag : ObjectTag
  vaultId : Bytes
  keyEpoch : UInt64
  authorPubkey : Bytes
  deriving DecidableEq

/-- The columns of an item, a manifest or a grant. -/
def columnsOf : SyncObject → Option Columns
  | .item i => some ⟨.item, i.vaultId, i.keyEpoch, i.authorPubkey⟩
  | .membershipManifest m => some ⟨.membershipManifest, m.vaultId, m.keyEpoch, m.authorPubkey⟩
  | .membershipGrant g => some ⟨.membershipGrant, g.vaultId, g.keyEpoch, g.authorPubkey⟩
  | _ => none

/-- A parsed object has these columns. -/
structure ParsedObject.Has (p : ParsedObject) (c : Columns) : Prop where
  tag : p.tag = some c.tag
  vaultId : p.vaultId = some c.vaultId
  keyEpoch : p.keyEpoch = some c.keyEpoch
  authorPubkey : p.authorPubkey = some c.authorPubkey

/-! ## What the server decides -/

/-- The manifest stored for an epoch gives the author this role. -/
def ManifestRow.Gives (row : ManifestRow) (e : SqlInt) (author : Bytes) (role : Option MemberRole) :
    Prop :=
  ∃ set, parseMemberSet row.manifestBlob = .ok set ∧ set.keyEpoch = e.toU64 ∧
    set.roleOf author = role

/-- Without a manifest of the epoch only the owner may write; with one any accepted item, and a
manifest or grant of an Admin or of an owner without a role. -/
def Permitted (db : Db) (owner : Bytes) (c : Columns) : Prop :=
  ∀ e : SqlInt, e.toU64 = c.keyEpoch →
    match db.manifests[(c.vaultId, e)]? with
    | none => c.authorPubkey = owner
    | some row => c.tag = .item ∨ ∀ role, row.Gives e c.authorPubkey role →
        role = some .admin ∨ (role = none ∧ c.authorPubkey = owner)

/-- The role the server resolves for the author of an object of an existing vault. -/
def resolvedRole (db : Db) (owner : Bytes) (c : Columns) : Except AppError (Option MemberRole) := do
  let epoch ← toI64 c.keyEpoch "key_epoch"
  let role ← memberRole epoch c.authorPubkey db.manifests[(c.vaultId, epoch)]?
  match role with
  | some role => .ok (some role)
  | none => .ok (ownerRole c.authorPubkey (some owner))

variable {p : ParsedObject} {c : Columns}

theorem roleOfAuthor_runAlone (has : p.Has c) {owner : Bytes}
    (owned : db.getVaultOwner c.vaultId = some owner) :
    (roleOfAuthor device p).runAlone db = (db, resolvedRole db owner c) := by
  unfold roleOfAuthor resolvedRole
  rw [has.vaultId, has.keyEpoch, has.authorPubkey]
  have isEpoch : epochI64 (some c.keyEpoch) = some <$> toI64 c.keyEpoch "key_epoch" := rfl
  rw [isEpoch]
  cases toI64 c.keyEpoch "key_epoch" with
  | error => rfl
  | ok epoch =>
    change Program.runAlone (Program.lift (memberRole epoch c.authorPubkey
      db.manifests[(c.vaultId, epoch)]?) >>= _) db = (db, memberRole epoch c.authorPubkey
      db.manifests[(c.vaultId, epoch)]? >>= _)
    cases memberRole epoch c.authorPubkey db.manifests[(c.vaultId, epoch)]? with
    | error => rfl
    | ok role =>
      cases role with
      | some => rfl
      | none =>
        rw [← owned]
        rfl

/-- The check of one object. -/
def checkedWriter (tag : ObjectTag) (aclOnly : Bool) (role : Except AppError (Option MemberRole)) :
    Except AppError Unit :=
  if tag = .item then
    if aclOnly then .ok () else role >>= checkRecordWriter
  else role >>= fun role =>
    require (role = some .admin) (.forbidden "only admins can publish membership records")

variable {aclOnly : Bool} {obj : SyncObject} {e : SqlInt}
  {author : Bytes}

theorem writeAcceptOne_runAlone {genesis : Option Bytes} (isObject : columnsOf obj = some c)
    (has : p.Has c) (owned : db.getVaultOwner c.vaultId = some owner) :
    (writeAcceptOne device genesis aclOnly p).runAlone db =
      (db, checkedWriter c.tag aclOnly (resolvedRole db owner c)) := by
  have resolved := @roleOfAuthor_runAlone db p c device has owner owned
  unfold writeAcceptOne checkedWriter
  rw [has.tag]
  cases obj with
  | item =>
    cases isObject
    cases aclOnly with
    | true => rfl
    | false =>
      change Program.runAlone (roleOfAuthor device p >>= _) db = _
      rw [Program.runAlone_bind, resolved]
      cases resolvedRole db owner _ <;> rfl
  | membershipManifest =>
    cases isObject
    rw [Program.runAlone_bind, resolved]
    cases resolvedRole db owner _ <;> rfl
  | membershipGrant =>
    cases isObject
    rw [Program.runAlone_bind, resolved]
    cases resolvedRole db owner _ <;> rfl
  | _ => cases isObject

/-! ## Agreement -/

/-- A set a client verified is the one the server reads where it stored the manifest. -/
theorem memberRole_of_chain (mirrors : Mirrors s db vaultId) {members : VerifiedMembers}
    (chain : verifyChainToEpoch P s vaultId e.toU64 owner = .ok members)
    (stored : db.manifests[(vaultId, e)]? = some row) :
    memberRole e author db.manifests[(vaultId, e)]? = .ok (members.roleOf author) ∧
      row.Gives e author (members.roleOf author) := by
  obtain ⟨_, held, _, isEpoch, payload⟩ := verifyChainToEpoch_manifest chain
  obtain ⟨n, same, found⟩ := Storage.getMembershipManifest_eq_ok.mp held
  obtain rfl := SqlInt.ext same
  obtain ⟨copy, hasCopy, isBlob, -⟩ := mirrors n row stored
  rw [hasCopy, map_some] at found
  cases found
  have epoch : members.keyEpoch = n.toU64 := isEpoch
  change parseMemberPayload n.toU64 copy.manifestBlob = _ at payload
  rw [isBlob] at payload
  have parsed := parseMemberSet_of_payload payload
  have role : MemberSet.roleOf { keyEpoch := n.toU64, members := members.members.map memberEntry }
      author = members.roleOf author := by
    rw [MemberSet.roleOf, VerifiedMembers.roleOf, find?_map, Option.map_map]
    rfl
  refine ⟨?_, _, parsed, rfl, role⟩
  rw [stored]
  unfold memberRole
  dsimp only
  rw [parsed]
  simp only [ok_bind, require, decide_true, ↓reduceIte, role]

/-- Not refused as forbidden. -/
def NotForbidden (result : Except AppError Unit) : Prop :=
  ∀ message, result ≠ .error (.forbidden message)

theorem toI64_error {e : AppError} (failed : toI64 v what = .error e) :
    e.code = .malformed ∧ ∀ n : SqlInt, n.toU64 ≠ v := by
  unfold toI64 checkedVersion at failed
  split at failed
  · cases failed
  · next outside =>
    cases failed
    refine ⟨rfl, ?_⟩
    rintro n rfl
    exact outside n.inRange

theorem notForbidden_of_code {e : AppError} (code : e.code = .malformed) :
    NotForbidden (.error e) := by
  intro _ same
  cases Except.error.inj same
  cases code

theorem notForbidden_require :
    NotForbidden (require condition (.forbidden message)) ↔ condition = true := by
  cases condition with
  | true => simp [NotForbidden, require]
  | false =>
    simp only [NotForbidden, require, Bool.false_eq_true, ↓reduceIte, ne_eq, iff_false, not_forall,
      not_not]
    exact ⟨message, rfl⟩

variable {role : Option MemberRole}

theorem notForbidden_checkRecordWriter :
    NotForbidden (checkRecordWriter role) ↔ role = some .editor ∨ role = some .admin := by
  have refused : ∀ message, ¬ NotForbidden (.error (.forbidden message)) :=
    fun message not => not message rfl
  cases role with
  | none => simpa [checkRecordWriter] using refused _
  | some role =>
    cases role with
    | viewer => simpa [checkRecordWriter] using refused _
    | _ => simp [checkRecordWriter, NotForbidden]

theorem permitted_iff (same : e.toU64 = c.keyEpoch) :
    Permitted db owner c ↔
      match db.manifests[(c.vaultId, e)]? with
      | none => c.authorPubkey = owner
      | some row => c.tag = .item ∨ ∀ role, row.Gives e c.authorPubkey role →
          role = some .admin ∨ (role = none ∧ c.authorPubkey = owner) := by
  constructor
  · intro permitted
    exact permitted e same
  · intro holds _ same'
    obtain rfl := SqlInt.ext (same'.trans same.symm)
    exact holds

/-- The chain a client accepts an object by, where it holds the manifest of the object's epoch. -/
theorem ClientAccepts.chain (isObject : columnsOf obj = some c)
    (accepts : ClientAccepts P s owner obj) (same : e.toU64 = c.keyEpoch)
    (held : s.membershipManifests[(c.vaultId, e)]? = some copy) :
    ∃ members, verifyChainToEpoch P s c.vaultId e.toU64 owner = .ok members ∧
      (c.tag = .item → members.canWrite c.authorPubkey = true) := by
  cases accepts with
  | item _ authorized =>
    cases isObject
    rcases verifyRecordAuthority_eq_ok.mp authorized with ⟨single, -⟩ | ⟨-, -, members, chain, writes⟩
    · exact absurd ⟨e, same, copy, held⟩ ((vaultIsMembershipMode_eq_false.mp single).2.1 _)
    · exact ⟨members, same ▸ chain, fun _ => writes⟩
  | manifest _ _ _ absent =>
    cases isObject
    obtain ⟨n, isEpoch, found⟩ := Storage.getMembershipManifest_eq_ok.mp absent
    obtain rfl := SqlInt.ext (isEpoch.trans same.symm)
    rw [held] at found
    cases found
  | sameManifest _ _ members _ _ chain =>
    cases isObject
    exact ⟨members, same ▸ chain, fun isItem => by cases isItem⟩
  | grant _ members chain =>
    cases isObject
    exact ⟨members, same ▸ chain, fun isItem => by cases isItem⟩

theorem notForbidden_checkedWriter :
    NotForbidden (checkedWriter tag false (.ok role)) ↔
      role = some .admin ∨ (tag = .item ∧ role = some .editor) := by
  unfold checkedWriter
  by_cases isItem : tag = .item
  · simp [isItem, notForbidden_checkRecordWriter, or_comm]
  · simp [isItem, notForbidden_require]

/-- A server that checks the list only asks nothing about items, and the same about the rest. -/
theorem checkedWriter_notForbidden {resolved : Except AppError (Option MemberRole)} :
    NotForbidden (checkedWriter tag aclOnly resolved) ↔
      (aclOnly = true ∧ tag = .item) ∨ NotForbidden (checkedWriter tag false resolved) := by
  cases aclOnly with
  | false => simp
  | true =>
    by_cases isItem : tag = .item
    · simp [checkedWriter, isItem, NotForbidden]
    · simp [checkedWriter, isItem]

theorem ownerRole_eq_admin :
    ownerRole author (some owner) = some .admin ↔ author = owner := by
  by_cases own : owner = author
  · simp [ownerRole, own]
  · simp [ownerRole, own, Ne.symm own]

theorem ownerRole_ne_editor : ownerRole author (some owner) ≠ some .editor := by
  unfold ownerRole
  split <;> simp

theorem checkedWriter_iff (isObject : columnsOf obj = some c)
    (mirrors : Mirrors s db c.vaultId) (accepts : ClientAccepts P s owner obj) :
    NotForbidden (checkedWriter c.tag false (resolvedRole db owner c)) ↔ Permitted db owner c := by
  unfold resolvedRole
  cases made : toI64 c.keyEpoch "key_epoch" with
  | error =>
    obtain ⟨code, outside⟩ := toI64_error made
    -- with an epoch no row can have, the server does not come to the question
    refine iff_of_true ?_ fun e same => absurd same (outside e)
    unfold checkedWriter
    split <;> exact notForbidden_of_code code
  | ok e =>
    have same : e.toU64 = c.keyEpoch := toI64_eq_ok made
    rw [permitted_iff same]
    simp only [ok_bind]
    cases stored : db.manifests[(c.vaultId, e)]? with
    | none =>
      -- Only the owner is known to the server.
      change NotForbidden (checkedWriter c.tag false
        (.ok (ownerRole c.authorPubkey (some owner)))) ↔ c.authorPubkey = owner
      rw [notForbidden_checkedWriter, ownerRole_eq_admin]
      simp [ownerRole_ne_editor]
    | some row =>
      obtain ⟨_, held, -⟩ := mirrors e row stored
      obtain ⟨members, chain, writes⟩ := accepts.chain isObject same held
      obtain ⟨read, gives⟩ := memberRole_of_chain mirrors chain stored
      rw [stored] at read
      rw [read]
      have unique : ∀ role, row.Gives e c.authorPubkey role ↔
          members.roleOf c.authorPubkey = role := by
        refine fun role => ⟨?_, fun isRole => isRole ▸ gives⟩
        rintro ⟨_, parsed, -, rfl⟩
        obtain ⟨_, parsed', -, isRole⟩ := gives
        rw [← isRole, Except.ok.inj (parsed.symm.trans parsed')]
      have writer : c.tag = .item → members.roleOf c.authorPubkey = some .editor ∨
          members.roleOf c.authorPubkey = some .admin :=
        fun isItem => of_decide_eq_true (writes isItem)
      simp only [ok_bind, unique, forall_eq']
      cases isRole : members.roleOf c.authorPubkey with
      | some =>
        rw [isRole] at writer
        rw [notForbidden_checkedWriter]
        grind
      | none =>
        rw [isRole] at writer
        rw [notForbidden_checkedWriter, ownerRole_eq_admin]
        grind [ownerRole_ne_editor]

theorem genesisKey_runAlone : ∃ genesis, genesisKey.runAlone db = (db, .ok genesis) := by
  unfold genesisKey
  rw [Program.runAlone_bind]
  dsimp only [Program.query, Program.runAlone]
  cases db.instanceOwner with
  | none => exact ⟨none, rfl⟩
  | some accountId => exact ⟨db.accountEd accountId, rfl⟩

/-- Of what a client with the server's manifests accepts, pushed by its author, the server forbids
exactly what it does not permit; without signature checks it asks nothing about items. -/
theorem client_accepted_not_forbidden_iff (P : Primitives) {db : Db} {s : Storage} {owner : Bytes}
    {obj : SyncObject} {c : Columns} (isObject : columnsOf obj = some c)
    (owned : db.getVaultOwner c.vaultId = some owner) {before : List PushObj}
    (mirrors : Mirrors s db c.vaultId) (accepts : ClientAccepts P s owner obj) (aclOnly : Bool)
    (taken : (writeAccept c.authorPubkey before aclOnly).runAlone db = (db, .ok ()))
    {it : PushObj} (sent : it.parsed.Has c) :
    NotForbidden ((writeAccept c.authorPubkey (before ++ [it]) aclOnly).runAlone db).2 ↔
      (aclOnly = true ∧ c.tag = .item) ∨ Permitted db owner c := by
  obtain ⟨_, isGenesis⟩ := genesisKey_runAlone
  unfold writeAccept at taken ⊢
  rw [Program.runAlone_bind, isGenesis] at taken ⊢
  dsimp only at taken ⊢
  rw [Program.runAlone_forM_append taken it, writeAcceptOne_runAlone isObject sent owned]
  rw [checkedWriter_notForbidden, checkedWriter_iff isObject mirrors accepts]

theorem writeAccept_nil_runAlone :
    (writeAccept device [] aclOnly).runAlone db = (db, .ok ()) := by
  obtain ⟨_, isGenesis⟩ := genesisKey_runAlone
  unfold writeAccept
  rw [Program.runAlone_bind, isGenesis]
  rfl

open UniSsh.Sample (ownerKey memberKey owner member vaultId)

namespace Sample

/-- The owner and a member are admins of the vault. -/
def coAdmins : List Member :=
  [{ ed25519Pub := ownerKey, role := .admin }, { ed25519Pub := memberKey, role := .admin }]

/-- A manifest of the vault with these admins. -/
def coManifest (author : UnlockedKeyset) (epoch : UInt64) : MembershipManifest :=
  (buildManifest .transparent author vaultId epoch coAdmins).toOption.getD
    { vaultId := [], keyEpoch := 0, manifestBlob := [], signature := [], authorPubkey := [] }

/-- The server stored the owner's manifest of epoch 1. -/
def coServer : Db :=
  served claimed (pushOf owner
    [.membershipManifest (coManifest owner 1)])

/-- A client with the same manifest. -/
def coClient : Storage :=
  finalState ((processObject .transparent UniSsh.Sample.context
    (.membershipManifest (coManifest owner 1))).run {})

/-- The client with a manifest of epoch 2. -/
def coClientWith (m : MembershipManifest) : Storage :=
  (coClient.putMembershipManifest m).toOption.getD {}

/-- An object as it is pushed. -/
def sentObject (obj : SyncObject) : PushObj :=
  { bytes := encoded obj, parsed := (parseOpen (encoded obj)).toOption.getD { tagU8 := 0 } }

/-- The member set of epoch 2. -/
def coMembers : VerifiedMembers :=
  { vaultId := vaultId, keyEpoch := 2,
    members := coAdmins.insertionSort fun a b => (compare a.ed25519Pub b.ed25519Pub).isLE }

/-- Both sides hold the same manifests; the server takes the next one from its owner only. -/
theorem co_runs :
    (∀ entry ∈ coServer.manifests.toList, (coClient.membershipManifests[entry.1]?.map fun copy =>
        (copy.manifestBlob, copy.signature, copy.authorPubkey)) =
      some (entry.2.manifestBlob, entry.2.signature, entry.2.authorPubkey)) ∧
    coClient.membershipManifests.keys = coServer.manifests.keys ∧
    (∀ author ∈ [owner, member], let m := coManifest author 2
      coClient.getMembershipManifest m.vaultId m.keyEpoch = .ok none ∧
      verifyChainToEpoch .transparent (coClientWith m) m.vaultId m.keyEpoch ownerKey =
        .ok coMembers) ∧
    coServer.getVaultOwner vaultId = some ownerKey ∧
    (∀ checked, ((serve .transparent { settings with validateSignatures := checked }
      (pushOf member [.membershipManifest (coManifest member 2)])).runAlone coServer).2 =
        .error (.forbidden "only admins can publish membership records")) ∧
    (let m := SyncObject.membershipManifest (coManifest owner 2)
      let p := (sentObject m).parsed
      columnsOf m = some ⟨.membershipManifest, vaultId, 2, ownerKey⟩ ∧
      (p.tag, p.vaultId, p.keyEpoch, p.authorPubkey) =
        (some .membershipManifest, some vaultId, some 2, some ownerKey)) ∧
    coServer.manifests[(vaultId, (⟨2, by decide⟩ : SqlInt))]? = none := by
  decide +kernel

theorem coClient_mirrors : Mirrors coClient coServer vaultId := by
  intro _ _ stored
  have listed := mem_toList_iff_getElem?_eq_some.mpr stored
  obtain ⟨copy, held, same⟩ := map_eq_some_iff.mp (co_runs.1 _ listed)
  simp only [Prod.mk.injEq] at same
  exact ⟨copy, held, same⟩

theorem coClient_accepts {author : UnlockedKeyset} (either : author = owner ∨ author = member) :
    ClientAccepts .transparent coClient ownerKey (.membershipManifest (coManifest author 2)) := by
  obtain ⟨absent, chain⟩ := co_runs.2.2.1 author (mem_pair.mpr either)
  rcases either with rfl | rfl
  · exact .manifest _ (coClientWith (coManifest owner 2)) coMembers absent rfl chain
  · exact .manifest _ (coClientWith (coManifest member 2)) coMembers absent rfl chain

end Sample

open UniSsh.Server.Sample

/-- An admin's next manifest is accepted by clients and refused by the server. -/
theorem admin_manifest_forbidden :
    coServer.getVaultOwner vaultId = some ownerKey ∧
    Mirrors coClient coServer vaultId ∧
    coClient.membershipManifests.keys = coServer.manifests.keys ∧
    ClientAccepts .transparent coClient ownerKey (.membershipManifest (coManifest member 2)) ∧
    ∀ checked, ((serve .transparent { settings with validateSignatures := checked }
      (pushOf member [.membershipManifest (coManifest member 2)])).runAlone coServer).2 =
        .error (.forbidden "only admins can publish membership records") := by
  obtain ⟨-, exactly, -, owned, refused, -⟩ := co_runs
  exact ⟨owned, coClient_mirrors, exactly, coClient_accepts (.inr rfl), refused⟩

/-- The owner's next manifest is permitted. -/
theorem client_accepted_not_forbidden_iff_owner :
    NotForbidden ((writeAccept ownerKey [sentObject (.membershipManifest (coManifest owner 2))]
      false).runAlone coServer).2 := by
  obtain ⟨-, -, -, owned, -, ⟨isObject, columns⟩, none⟩ := co_runs
  simp only [Prod.mk.injEq] at columns
  obtain ⟨tag, vault, epoch, author⟩ := columns
  have agree := client_accepted_not_forbidden_iff .transparent isObject owned
    coClient_mirrors (coClient_accepts (.inl rfl)) false
    writeAccept_nil_runAlone ⟨tag, vault, epoch, author⟩
  refine agree.mpr (.inr ((permitted_iff (e := ⟨2, by decide⟩) rfl).mpr ?_))
  rw [none]

end UniSsh.Server
