import UniSsh.Sync.VerifyBeforeApply

/-!
# Revocation is final on a device that has seen it

Once an epoch's manifest leaves a key out and the floor stands there, the manifest is never
replaced, the floor never sinks, and a verified set is read off the manifest of its own epoch.
-/

namespace UniSsh

variable {P : Primitives} {ctx : SyncContext} {s s' : Storage}

/-- The manifest of `epoch` is stored and does not list `member`, and the floor is armed. -/
structure Excluded (s : Storage) (vaultId member : Bytes) (epoch : UInt64) : Prop where
  manifest : ∃ stored, s.getMembershipManifest vaultId epoch = .ok (some stored) ∧
    ∀ members, parseMemberPayload stored.keyEpoch stored.manifestBlob = .ok members →
      ∀ listed ∈ members, listed.ed25519Pub ≠ member
  armed : epoch ≤ epochFloor s vaultId

variable {anchor : Bytes} {epoch : UInt64} {members : VerifiedMembers}

/-- Whatever the chain at that epoch is anchored in, the key is not in the set it proves. -/
theorem Excluded.not_contains (excluded : Excluded s vaultId member epoch)
    (chain : verifyChainToEpoch P s vaultId epoch anchor = .ok members) :
    members.contains member = false := by
  obtain ⟨_, read, unlisted⟩ := excluded.manifest
  obtain ⟨_, readAgain, -, -, parsed⟩ := verifyChainToEpoch_manifest chain
  rw [read] at readAgain
  cases readAgain
  apply Bool.eq_false_iff.mpr
  intro contained
  obtain ⟨listed, inList, same⟩ := List.any_eq_true.mp contained
  exact unlisted members.members parsed listed inList (of_decide_eq_true same)

/-! ## What a run keeps -/

theorem NotRolledBack.epochFloor_le (kept : NotRolledBack s s') (vaultId : Bytes) :
    epochFloor s vaultId ≤ epochFloor s' vaultId := by
  unfold epochFloor Storage.getVaultEpochFloor
  cases found : s.vaultEpochFloor[vaultId]? with
  | none =>
    rw [UInt64.le_iff_toNat_le]
    exact Nat.zero_le _
  | some n =>
    obtain ⟨_, found', le⟩ := kept.floors vaultId n found
    rw [found']
    exact le

theorem NotRolledBack.getMembershipManifest (kept : NotRolledBack s s')
    (read : s.getMembershipManifest vaultId epoch = .ok (some stored)) :
    s'.getMembershipManifest vaultId epoch = .ok (some stored) := by
  obtain ⟨n, sameEpoch, found⟩ := Storage.getMembershipManifest_eq_ok.mp read
  obtain ⟨row, present, mapped⟩ := map_eq_some_iff.mp found.symm
  obtain ⟨_, present', same⟩ := kept.manifests (vaultId, n) row present
  refine Storage.getMembershipManifest_eq_ok.mpr ⟨n, sameEpoch, ?_⟩
  rw [present', ← same, map_some, mapped]

theorem Excluded.mono (kept : NotRolledBack s s') (excluded : Excluded s vaultId member epoch) :
    Excluded s' vaultId member epoch := by
  obtain ⟨stored, read, unlisted⟩ := excluded.manifest
  exact ⟨⟨stored, kept.getMembershipManifest read, unlisted⟩,
    UInt64.le_trans excluded.armed (kept.epochFloor_le vaultId)⟩

/-! ## What an excluded key needs to come back -/

/-- A later epoch than `epoch`, whose verified set lists the key as editor or admin. -/
def Readmitted (P : Primitives) (ctx : SyncContext) (s : Storage) (vaultId member : Bytes)
    (epoch keyEpoch : UInt64) : Prop :=
  epoch < keyEpoch ∧ ∃ members,
    verifyChainToEpoch P s vaultId keyEpoch (vaultAnchor s vaultId ctx) = .ok members ∧
      (members.roleOf member = some .editor ∨ members.roleOf member = some .admin)

theorem RecordAdmitted.readmitted (excluded : Excluded s vaultId member epoch)
    (admitted : RecordAdmitted P ctx s vaultId member keyEpoch aad content signature) :
    Readmitted P ctx s vaultId member epoch keyEpoch := by
  have above : epoch ≤ keyEpoch := UInt64.le_trans excluded.armed admitted.aboveFloor
  have entitled := AuthorEntitled.of_verified admitted.authorized
  cases entitled with
  | owner _ noManifest =>
    -- The stored manifest alone puts the vault in membership mode.
    obtain ⟨_, read, -⟩ := excluded.manifest
    obtain ⟨n, sameEpoch, found⟩ := Storage.getMembershipManifest_eq_ok.mp read
    obtain ⟨row, present, -⟩ := map_eq_some_iff.mp found.symm
    exact (noManifest epoch ⟨n, sameEpoch, row, present⟩).elim
  | writer members _ chain _ role =>
    refine ⟨?_, members, chain, role⟩
    by_contra notLater
    have same : epoch = keyEpoch := UInt64.le_antisymm above (UInt64.not_lt.mp notLater)
    subst same
    have absent := excluded.not_contains chain
    have present : members.contains member = true :=
      members.contains_of_canWrite (by simpa [VerifiedMembers.canWrite] using role)
    rw [absent] at present
    cases present

/-- A key left out of a verified armed epoch writes no record of the vault until listed again. -/
theorem revocation_is_final {vaultId member anchor : Bytes} {epoch : UInt64}
    {members : VerifiedMembers} (chain : verifyChainToEpoch P s vaultId epoch anchor = .ok members)
    (armed : epoch ≤ epochFloor s vaultId) (absent : members.contains member = false)
    (calls : List PullCall) (ctx : SyncContext) {events : List PullEvent} {mid mid' : Storage}
    (trace : PullTrace P ctx (runCalls P calls s) events mid) {obj : SyncObject}
    (applied : Processes P ctx mid obj (.ok .applied) mid') :
    (∀ i, obj = .item i → i.vaultId = vaultId → i.authorPubkey = member →
      Readmitted P ctx mid vaultId member epoch i.keyEpoch) ∧
    (∀ v, obj = .vault v → v.vaultId = vaultId → v.authorPubkey = member →
      Readmitted P ctx mid vaultId member epoch v.keyEpoch) := by
  have excluded : Excluded s vaultId member epoch := by
    obtain ⟨stored, read, -, -, parsed⟩ := verifyChainToEpoch_manifest chain
    refine ⟨⟨stored, read, ?_⟩, armed⟩
    intro _ again listed inList same
    rw [parsed] at again
    cases again
    have found : members.contains member = true :=
      List.any_eq_true.mpr ⟨listed, inList, decide_eq_true same⟩
    rw [absent] at found
    cases found
  have excluded := excluded.mono ((runCalls_notRolledBack P calls s).trans trace.notRolledBack)
  constructor
  · rintro i rfl rfl rfl
    exact RecordAdmitted.readmitted excluded applied.itemAdmitted
  · rintro v rfl rfl rfl
    exact RecordAdmitted.readmitted excluded applied.vaultAdmitted

/-! A device that has seen the owner alone at epoch 1 takes a record of another account after
the owner made it an editor at epoch 2. -/

namespace Sample

def device : Storage :=
  let first := manifest 1 [{ ed25519Pub := ownerKey, role := .admin }]
  { membershipManifests :=
      (∅ : Table (Bytes × SqlInt) ManifestRow).insert (vaultId, ⟨1, SqlInt.one_inRange⟩)
        (Storage.manifestRow first none)
    vaultEpochFloor := (∅ : Table Bytes SqlInt).insert vaultId ⟨1, SqlInt.one_inRange⟩ }

def second : MembershipManifest :=
  manifest 2 [{ ed25519Pub := ownerKey, role := .admin }, { ed25519Pub := memberKey, role := .editor }]

/-- The device after it pulled the manifest of epoch 2. -/
def rekeyed : Storage :=
  finalState ((processObject .transparent context (.membershipManifest second)).run device)

end Sample

open Sample

/-- A member left out, and listed again later. -/
theorem revocation_is_final_until_readmitted :
    Readmitted .transparent context rekeyed vaultId memberKey 1
      (item member [5] [4] 1 2).keyEpoch := by
  have chain : verifyChainToEpoch .transparent device vaultId 1 ownerKey =
      .ok { vaultId := vaultId, keyEpoch := 1,
            members := [{ ed25519Pub := ownerKey, role := .admin }] } := by
    decide +kernel
  have pulled : PullTrace .transparent context (runCalls .transparent [] device)
      [.processed (1, .membershipManifest second) (.ok .applied)] rekeyed :=
    .processed _ _ ⟨by decide +kernel, rfl⟩ (.done _)
  have applied : Processes .transparent context rekeyed
      (.item (item member [5] [4] 1 2)) (.ok .applied) _ := ⟨by decide +kernel, rfl⟩
  exact (revocation_is_final chain (by decide) (by decide) [] context pulled
    applied).1 _ rfl rfl rfl

end UniSsh
