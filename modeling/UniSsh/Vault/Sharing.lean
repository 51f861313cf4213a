import UniSsh.Vault.Reopened

/-!
# What sharing a vault keeps readable

Sharing keeps the key and reissues the current items; archived versions keep their epoch, which is
below the new floor.
-/

namespace UniSsh

variable {P : Primitives} {s s' : Storage} {vault : Vault}

/-! ## Versions before and after -/

/-- The archived record a lookup of a version finds; the current one is not live at it. -/
structure Vault.Archived (vault : Vault) (s : Storage) (itemId : Bytes) (version : UInt64)
    (r : ItemRecord) : Prop where
  notCurrent : (s.getItem vault.vaultId itemId).filter
    (fun r => !r.tombstone && r.version = version) = none
  found : (s.listItemHistory vault.vaultId itemId).find? (fun r => r.version = version) = some r

variable {itemId : Bytes} {version : UInt64} {r : ItemRecord}

theorem Vault.Archived.getItemVersion (archived : vault.Archived s itemId version r) :
    vault.getItemVersion P s itemId version = some <$> vault.decryptRecord P s r := by
  unfold Vault.getItemVersion
  rw [archived.notCurrent, archived.found]

theorem Vault.Archived.names (archived : vault.Archived s itemId version r) :
    r.vaultId = vault.vaultId ∧ r.itemId = itemId ∧ r.version = version := by
  have listed := List.mem_of_find?_eq_some archived.found
  have isVersion := List.find?_some archived.found
  unfold Storage.listItemHistory at listed
  rw [List.mem_insertionSort, List.mem_filter] at listed
  obtain ⟨ofVault, isItem⟩ := of_decide_eq_true listed.2
  exact ⟨ofVault, isItem, of_decide_eq_true isVersion⟩

/-- Every current item that could be read can be read, as its next version. -/
def KeepsCurrent (P : Primitives) (vault reopened : Vault) (s s' : Storage) : Prop :=
  ∀ itemId item, vault.getItem P s itemId = .ok (some item) →
    ∃ version, nextVersion item.version = .ok version ∧
      reopened.getItem P s' itemId = .ok (some { item with version }) ∧
      reopened.getItemVersion P s' itemId version = .ok (some { item with version })

/-- Every archived version that could be read can be read. -/
def KeepsArchived (P : Primitives) (vault reopened : Vault) (s s' : Storage) : Prop :=
  ∀ itemId version r item, vault.Archived s itemId version r →
    vault.getItemVersion P s itemId version = .ok (some item) →
    reopened.getItemVersion P s' itemId version = .ok (some item)

/-- The current item whose next version is `version`. -/
def Vault.Precedes (vault : Vault) (s : Storage) (itemId : Bytes) (version : UInt64)
    (cur : ItemRecord) : Prop :=
  s.getItem vault.vaultId itemId = some cur ∧ cur.tombstone = false ∧
    nextVersion cur.version = .ok version

/-- The epoch a membership change opens: the one after the latest, or the first. -/
def Vault.nextMembershipEpoch (vault : Vault) (s : Storage) : UInt64 :=
  (s.latestMembershipEpoch vault.vaultId).elim 1 (· + 1)

/-- Who may write among the members given. -/
def Writes (members : List Member) (key : Bytes) : Prop :=
  ∃ m ∈ members, m.ed25519Pub = key ∧ m.role ≠ .viewer

/-- An archived record stays readable when the vault is shared: it has the next epoch and is by a
member who may write, or the current item takes its version with the same content. -/
def Vault.Survives (P : Primitives) (vault : Vault) (s : Storage) (members : List Member)
    (itemId : Bytes) (version : UInt64) (r : ItemRecord) (content : Bytes) : Prop :=
  (∀ cur, vault.Precedes s itemId version cur →
    cur.itemType = r.itemType ∧ cur.Opens P vault.vk content) ∧
  ((∀ cur, ¬ vault.Precedes s itemId version cur) →
    r.keyEpoch = vault.nextMembershipEpoch s ∧ Writes members r.authorPubkey)

/-- The set of a manifest built from members lets exactly their writers write. -/
theorem canWrite_built {set : VerifiedMembers} {m : MembershipManifest}
    (built : buildManifest P adminKeyset vaultId epoch members = .ok m)
    (parsed : parseMemberPayload m.keyEpoch m.manifestBlob = .ok set.members) :
    set.canWrite key = true ↔ Writes members key := by
  obtain ⟨_, written, built⟩ := bind_eq_ok.mp built
  obtain ⟨_, -, built⟩ := bind_eq_ok.mp built
  cases built
  have isSet := (Except.ok.inj ((parseMemberPayload_canonical written).symm.trans parsed)).symm
  constructor
  · intro writes
    obtain ⟨m, inSet, named⟩ := List.any_eq_true.mp (set.contains_of_canWrite writes)
    have listed : m ∈ members := by
      rw [isSet] at inSet
      exact (List.mem_insertionSort _).mp inSet
    obtain rfl := of_decide_eq_true named
    refine ⟨m, listed, rfl, fun isViewer => ?_⟩
    simp [VerifiedMembers.canWrite, roleOf_payloadOrder written isSet listed, isViewer] at writes
  · rintro ⟨m, listed, rfl, notViewer⟩
    have role := roleOf_payloadOrder written isSet listed
    cases isRole : m.role with
    | viewer => exact (notViewer isRole).elim
    | editor => simp [VerifiedMembers.canWrite, role, isRole]
    | admin => simp [VerifiedMembers.canWrite, role, isRole]

theorem Reanchored.nextMembershipEpoch
    (reanchored : Reanchored P own vault.vaultId epoch s s') : epoch = vault.nextMembershipEpoch s := by
  obtain ⟨_, _, _, _, succeeds, -⟩ := reanchored.manifest
  unfold Vault.nextMembershipEpoch
  cases succeeds with
  | first alone => rw [alone, Option.elim_none]
  | next isLatest => rw [isLatest, Option.elim_some]

/-- In a vault that was shared with some members, only what they write at the new epoch counts. -/
theorem Reanchored.authority_iff (reanchored : Reanchored P own vaultId epoch s s')
    (built : buildManifest P adminKeyset vaultId epoch members = .ok m)
    (stored : s'.getMembershipManifest vaultId epoch = .ok (some m)) (author : Bytes)
    (recordEpoch : UInt64) :
    verifyRecordAuthority P s' vaultId author recordEpoch own = .ok () ↔
      recordEpoch = epoch ∧ Writes members author := by
  rw [reanchored.atEpoch.shared_authority reanchored.positive]
  have writes {set} (chain : verifyChainToEpoch P s' vaultId epoch own = .ok set) :
      set.canWrite author = true ↔ Writes members author := by
    obtain ⟨_, stored', -, -, parsed⟩ := verifyChainToEpoch_manifest chain
    cases stored.symm.trans stored'
    exact canWrite_built built parsed
  cases reanchored.atEpoch with
  | alone => exact (reanchored.positive rfl).elim
  | shared latest _ chain =>
    constructor
    · rintro ⟨atLeast, set, chain', may⟩
      obtain ⟨_, stored', -⟩ := verifyChainToEpoch_manifest chain'
      obtain ⟨n, isEpoch, found⟩ := Storage.getMembershipManifest_eq_ok.mp stored'
      obtain ⟨row, isRow, -⟩ := map_eq_some_iff.mp found.symm
      have atMost := (Storage.latestMembershipEpoch_eq_some.mp latest).2 recordEpoch
        ⟨n, isEpoch, row, isRow⟩
      obtain rfl := UInt64.le_antisymm atMost atLeast
      exact ⟨rfl, (writes chain').mp may⟩
    · rintro ⟨rfl, may⟩
      exact ⟨UInt64.le_refl _, _, chain, (writes chain).mpr may⟩

theorem getItem_eq_some (read : vault.getItem P s itemId = .ok (some item)) :
    ∃ r, s.getItem vault.vaultId itemId = some r ∧ r.tombstone = false ∧
      vault.decryptRecord P s r = .ok item := by
  unfold Vault.getItem at read
  split at read
  · next r found =>
    split at read
    · cases read
    · next live =>
      obtain ⟨_, decrypted, same⟩ := map_eq_ok.mp read
      cases same
      exact ⟨r, found, Bool.eq_false_iff.mpr live, decrypted⟩
  · cases read

theorem getItemVersion_current (read : vault.getItem P s itemId = .ok (some item)) :
    vault.getItemVersion P s itemId item.version = .ok (some item) := by
  obtain ⟨r, found, live, decrypted⟩ := getItem_eq_some read
  obtain ⟨ofVault, -⟩ := getItem_names found
  obtain ⟨-, -, _, -, rfl⟩ := (decryptRecord_eq_ok ofVault).mp decrypted
  unfold Vault.getItemVersion
  rw [found, Option.filter_some, if_pos (by simp [live])]
  exact congrArg (some <$> ·) decrypted

variable {reopened : Vault}

section

variable (carried : Carried P vault reopened s s')
include carried

/-- What stays current is current after the change. -/
theorem Carried.precedes (precedes : vault.Precedes s itemId version cur)
    (opens : cur.Opens P vault.vk content) :
    reopened.getItemVersion P s' itemId version =
      .ok (some { itemId, itemType := cur.itemType, version, content }) := by
  obtain ⟨found, live, next⟩ := precedes
  obtain ⟨_, next', read⟩ := carried.getItem found live opens
  cases next.symm.trans next'
  exact getItemVersion_current read

/-- What was archived is archived after the change, unless the current item took its version. -/
theorem Carried.archived
    (history : s'.itemHistory = s.itemHistory) (archived : vault.Archived s itemId version r)
    (free : ∀ cur, ¬ vault.Precedes s itemId version cur) :
    reopened.Archived s' itemId version r := by
  refine ⟨?_, ?_⟩
  · rw [carried.sameVault]
    have related := carried.items itemId
    cases found' : s'.getItem vault.vaultId itemId with
    | none => rfl
    | some r' =>
      rw [found'] at related
      cases found : s.getItem vault.vaultId itemId with
      | none =>
        rw [found] at related
        cases related
      | some cur =>
        rw [found] at related
        cases related with
        | some both =>
          rw [Option.filter_eq_none_iff]
          rintro _ ⟨⟩ isCurrent
          have isCurrent : r'.tombstone = false ∧ r'.version = version := by
            simpa using isCurrent
          exact free cur ⟨found, both.1.sameLife.symm.trans isCurrent.1, isCurrent.2 ▸ both.1.next⟩
  · rw [carried.sameVault]
    have same : s'.listItemHistory vault.vaultId itemId = s.listItemHistory vault.vaultId itemId := by
      unfold Storage.listItemHistory
      rw [history]
    rw [same]
    exact archived.found

theorem Carried.keepsCurrent : KeepsCurrent P vault reopened s s' := by
  intro _ _ read
  obtain ⟨r, found, live, decrypted⟩ := getItem_eq_some read
  obtain ⟨ofVault, isItem⟩ := getItem_names found
  obtain ⟨-, -, _, opens, rfl⟩ := (decryptRecord_eq_ok ofVault).mp decrypted
  obtain ⟨version, next, read'⟩ := carried.getItem found live opens
  rw [isItem]
  exact ⟨version, next, read', getItemVersion_current read'⟩

theorem Carried.keepsArchived_iff
    (history : s'.itemHistory = s.itemHistory) (sameKey : reopened.vk = vault.vk)
    (authority : ∀ author recordEpoch, verifyRecordAuthority P s' vault.vaultId author recordEpoch
        (vault.keyset.verifying P) = .ok () ↔
      recordEpoch = vault.nextMembershipEpoch s ∧ Writes members author) :
    KeepsArchived P vault reopened s s' ↔
      ∀ itemId version r item, vault.Archived s itemId version r →
        vault.decryptRecord P s r = .ok item →
        vault.Survives P s members itemId version r item.content := by
  refine forall_congr' fun itemId => forall_congr' fun version => forall_congr' fun r =>
    forall_congr' fun item => forall_congr' fun archived => ?_
  obtain ⟨ofVault, isItem, isVersion⟩ := archived.names
  rw [archived.getItemVersion]
  have readable : some <$> vault.decryptRecord P s r = .ok (some item) ↔
      vault.decryptRecord P s r = .ok item := by
    cases vault.decryptRecord P s r <;> simp
  rw [readable]
  refine forall_congr' fun decrypted => ?_
  obtain ⟨signed, -, content, opens, rfl⟩ := (decryptRecord_eq_ok ofVault).mp decrypted
  by_cases shadowed : ∃ cur, vault.Precedes s itemId version cur
  · -- The current item took the version: it is what is read.
    obtain ⟨cur, precedes⟩ := shadowed
    have only : ∀ other, vault.Precedes s itemId version other → other = cur := by
      intro other isCurrent
      exact Option.some.inj (isCurrent.1.symm.trans precedes.1)
    constructor
    · intro kept
      refine ⟨fun other isCurrent => ?_, fun free => (free cur precedes).elim⟩
      obtain rfl := only other isCurrent
      obtain ⟨content', opensCur⟩ : ∃ content', other.Opens P vault.vk content' := by
        have related := carried.items itemId
        rw [precedes.1] at related
        generalize s'.getItem vault.vaultId itemId = after at related
        cases related with
        | some both =>
          obtain ⟨content', opens', -⟩ := both.1.content precedes.2.1
          exact ⟨content', opens'⟩
      have same := kept.symm.trans (carried.precedes precedes opensCur)
      simp only [Except.ok.injEq, Option.some.injEq, DecryptedItem.mk.injEq] at same
      obtain ⟨-, sameType, -, sameContent⟩ := same
      exact ⟨sameType.symm, sameContent ▸ opensCur⟩
    · rintro ⟨same, -⟩
      obtain ⟨sameType, opensCur⟩ := same cur precedes
      rw [carried.precedes precedes opensCur, sameType, isItem, isVersion]
  · -- The archive is looked up again, and its author judged at the new epoch.
    have free : ∀ cur, ¬ vault.Precedes s itemId version cur := fun cur isCurrent =>
      shadowed ⟨cur, isCurrent⟩
    have authority := authority r.authorPubkey r.keyEpoch
    rw [(carried.archived history archived free).getItemVersion]
    constructor
    · intro kept
      obtain ⟨_, read, _⟩ := map_eq_ok.mp kept
      have judged := ((decryptRecord_eq_ok (ofVault.trans carried.sameVault.symm)).mp read).2.1
      rw [carried.sameVault, carried.anchor] at judged
      exact ⟨fun cur isCurrent => (free cur isCurrent).elim, fun _ => authority.mp judged⟩
    · rintro ⟨-, stamped⟩
      refine map_eq_ok.mpr ⟨_, (decryptRecord_eq_ok (ofVault.trans carried.sameVault.symm)).mpr
        ⟨signed, ?_, content, sameKey ▸ opens, rfl⟩, rfl⟩
      rw [carried.sameVault, carried.anchor]
      exact authority.mpr (stamped free)

end

/-- Sharing keeps the key and every current item, and the archive exactly when it survives. -/
theorem sharing_keeps_archive_iff {now : Int64} {adminKeyset : UnlockedKeyset}
    {members : List Member} {x25519ByEd : List (Bytes × Bytes)} {draws : Draws} {vault' : Vault}
    (opened : openVault P s vault.keyset vault.vaultId now = .ok vault)
    (owner : vault.genesisOwner = vault.keyset.verifying P)
    (nonces : ∀ n, (draws n).length = nonceLen)
    (ran : (vault.establishOrExtendMembership P adminKeyset members x25519ByEd draws).run s =
      .ok vault' s')
    (listed : { ed25519Pub := vault.keyset.verifying P, role := .admin } ∈ members) :
    ∃ reopened, (∀ now, openVault P s' vault.keyset vault.vaultId now = .ok reopened) ∧
      reopened.vk = vault.vk ∧ reopened.keyEpoch = vault.nextMembershipEpoch s ∧
      KeepsCurrent P vault reopened s s' ∧
      (KeepsArchived P vault reopened s s' ↔
        ∀ itemId version r item, vault.Archived s itemId version r →
          vault.decryptRecord P s r = .ok item →
          vault.Survives P s members itemId version r item.content) := by
  obtain ⟨-, -, isKey, unpinned⟩ := openVault_owner opened owner
  obtain ⟨reanchored, under, ⟨r, found, seals⟩, _, built, stored⟩ :=
    (establish_reanchors ran).resolve_right fun other => other.2 listed
  have carried := Carried.of_reanchored isKey unpinned reanchored under nonces found (seals nonces)
  have isNext := reanchored.nextMembershipEpoch
  refine ⟨_, carried.opens, rfl, isNext, carried.keepsCurrent, ?_⟩
  refine carried.keepsArchived_iff (by rw [reanchored.frame]) rfl fun author recordEpoch => ?_
  rw [← isNext]
  exact reanchored.authority_iff built stored author recordEpoch

open Sample List

/-- Sharing a vault makes the archived version of a note unreadable. -/
theorem sharing_loses_archived_version :
    openVault .transparent redraft owner vaultId 0 = .ok soloVault ∧
    soloVault.getItemVersion .transparent redraft [4] 1 =
      .ok (some { itemId := [4], itemType := 0, version := 1, content := [5] }) ∧
    (valueOf (sharing.run redraft)).isOk ∧
    let shared := finalState (sharing.run redraft)
    openVault .transparent shared owner vaultId 0 = .ok sharedVault ∧
      sharedVault.getItemVersion .transparent shared [4] 1 = .error .epochInvalid := by
  decide +kernel

/-- The archived version carries the epoch that opens when the vault is shared. -/
def Sample.stamped : Storage :=
  { redraft with itemHistory := redraft.itemHistory.map fun row => { row with keyEpoch := 1 } }

/-- An archived version that carries the new epoch already. -/
theorem sharing_keeps_archive_iff_stamped :
    ∃ vault' s' reopened, sharing.run stamped = .ok vault' s' ∧
      soloVault.getItemVersion .transparent stamped [4] 1 =
        .ok (some { itemId := [4], itemType := 0, version := 1, content := [5] }) ∧
      KeepsArchived .transparent soloVault reopened stamped s' := by
  have opened : openVault .transparent stamped soloVault.keyset soloVault.vaultId
      0 = .ok soloVault := by decide +kernel
  obtain ⟨vault', s', ran⟩ := exists_of_isOk
    (show (valueOf (sharing.run stamped)).isOk = true by decide +kernel)
  obtain ⟨reopened, -, -, -, -, exact⟩ := sharing_keeps_archive_iff opened rfl
    (fun _ => length_replicate) ran (mem_singleton_self _)
  refine ⟨vault', s', reopened, ran, by decide +kernel, exact.mpr ?_⟩
  have rows : ∀ r ∈ stamped.itemHistory, r.itemId = [4] ∧ r.version = 1 ∧ r.keyEpoch = 1 ∧
      r.authorPubkey = ownerKey := by decide +kernel
  have current : (stamped.getItem vaultId [4]).map (fun r => nextVersion r.version) =
      some (.ok 3) := by decide +kernel
  intro itemId version r item archived _
  obtain ⟨-, rfl, rfl⟩ := archived.names
  have listed := (mem_filter.mp
    ((mem_insertionSort _).mp (mem_of_find?_eq_some archived.found))).1
  obtain ⟨isItem, isVersion, isEpoch, isAuthor⟩ := rows r listed
  refine ⟨fun cur precedes => ?_, fun _ => ⟨isEpoch, _, mem_singleton_self _, isAuthor.symm, nofun⟩⟩
  obtain ⟨found, -, next⟩ := precedes
  rw [isItem] at found
  rw [show stamped.getItem vaultId [4] = some cur from found, Option.map_some, next, isVersion] at current
  cases current

end UniSsh
