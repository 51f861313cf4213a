import UniSsh.Vault.Authority

/-!
# What the authority chain proves, and what it reads

The walk to an epoch succeeds exactly when every epoch up to it is `Issued`. It reads the
manifests one after another (`verifyChainReading`) and stops at the first it cannot verify.
-/

namespace UniSsh

/-! ## The sets a chain proves -/

/-- The members the manifest stored for an epoch lists. -/
def membersAt (s : Storage) (vaultId : Bytes) (epoch : UInt64) : List Member :=
  match s.getMembershipManifest vaultId epoch with
  | .ok (some m) => (parseMemberPayload epoch m.manifestBlob).toOption.getD []
  | _ => []

/-- Who may issue an epoch: the anchor the first, an admin of the set before every later one. -/
def MayIssue (s : Storage) (vaultId anchor : Bytes) (epoch : UInt64) (author : Bytes) : Prop :=
  if epoch = 1 then author = anchor
  else { ed25519Pub := author, role := .admin } ∈ membersAt s vaultId (epoch - 1)

/-- An epoch with a stored manifest that decodes at it, signed by an author who may issue it. -/
def Issued (P : Primitives) (s : Storage) (vaultId anchor : Bytes) (epoch : UInt64) : Prop :=
  ∃ m members, s.getMembershipManifest vaultId epoch = .ok (some m) ∧
    parseMemberPayload epoch m.manifestBlob = .ok members ∧
    verifySigned P m.authorPubkey (manifestAad vaultId epoch) m.manifestBlob m.signature = .ok () ∧
    MayIssue s vaultId anchor epoch m.authorPubkey

variable {P : Primitives} {s : Storage} {vaultId anchor : Bytes}

theorem isAdmin_iff (set : VerifiedMembers) :
    set.isAdmin key = true ↔ { ed25519Pub := key, role := .admin } ∈ set.members := by
  unfold VerifiedMembers.isAdmin
  rw [List.any_eq_true]
  constructor
  · rintro ⟨m, listed, named⟩
    obtain ⟨isKey, isAdmin⟩ := of_decide_eq_true named
    rw [← isKey, ← isAdmin]
    exact listed
  · exact fun listed => ⟨_, listed, decide_eq_true ⟨rfl, rfl⟩⟩

variable {epoch : UInt64} {m : MembershipManifest}

theorem getMembershipManifest_names (stored : s.getMembershipManifest vaultId epoch = .ok (some m)) :
    m.vaultId = vaultId ∧ m.keyEpoch = epoch := by
  obtain ⟨n, rfl, found⟩ := Storage.getMembershipManifest_eq_ok.mp stored
  obtain ⟨_, -, rfl⟩ := map_eq_some_iff.mp found.symm
  exact ⟨rfl, rfl⟩

theorem membersAt_eq (stored : s.getMembershipManifest vaultId epoch = .ok (some m))
    (decodes : parseMemberPayload epoch m.manifestBlob = .ok members) :
    membersAt s vaultId epoch = members := by
  unfold membersAt
  rw [stored]
  simp [decodes, Except.toOption]

/-- The set the walk carries behind its first `n` links. -/
def provenAt (s : Storage) (vaultId : Bytes) : Nat → Option VerifiedMembers
  | 0 => none
  | n + 1 => some
      { vaultId, keyEpoch := UInt64.ofNat (n + 1), members := membersAt s vaultId (UInt64.ofNat (n + 1)) }

variable {n : Nat}

/-- The succession check against the set before is the right to issue the epoch. -/
theorem checkSuccession_iff (inRange : n + 1 < 2 ^ 64) (names : m.keyEpoch = UInt64.ofNat (n + 1)) :
    checkSuccession m (provenAt s vaultId n) anchor = .ok () ↔
      MayIssue s vaultId anchor (UInt64.ofNat (n + 1)) m.authorPubkey := by
  unfold checkSuccession MayIssue
  cases n with
  | zero =>
    simp only [provenAt, names, zero_add]
    by_cases isAnchor : m.authorPubkey = anchor <;> simp [isAnchor]
  | succ n =>
    have value : (UInt64.ofNat (n + 1)).toNat = n + 1 :=
      UInt64.toNat_ofNat_of_lt' (show n + 1 < 2 ^ 64 by omega)
    have notLast : UInt64.ofNat (n + 1) ≠ 0xFFFFFFFFFFFFFFFF := by
      intro last
      rw [last] at value
      have : (0xFFFFFFFFFFFFFFFF : UInt64).toNat = 2 ^ 64 - 1 := rfl
      omega
    have succ : UInt64.ofNat (n + 1 + 1) = UInt64.ofNat (n + 1) + 1 := UInt64.ofNat_add _ _
    have later : UInt64.ofNat (n + 1 + 1) ≠ 1 := by
      intro first
      have := congrArg UInt64.toNat first
      rw [UInt64.toNat_ofNat_of_lt' inRange] at this
      have : (1 : UInt64).toNat = 1 := rfl
      omega
    have before : UInt64.ofNat (n + 1 + 1) - 1 = UInt64.ofNat (n + 1) := by
      rw [succ, UInt64.add_sub_cancel]
    rw [if_neg later, before]
    simp only [provenAt, names, saturatingSucc, if_neg notLast, succ, ne_eq, not_true, if_false]
    rw [← isAdmin_iff { vaultId, keyEpoch := UInt64.ofNat (n + 1), members := _ }]
    split <;> simp_all

/-- A link is verified exactly when its epoch was issued, and gives the set of that epoch. -/
theorem chainLink_iff (inRange : n + 1 < 2 ^ 64) {set : VerifiedMembers} :
    chainLink P s vaultId anchor (provenAt s vaultId n) (n + 1) = .ok set ↔
      Issued P s vaultId anchor (UInt64.ofNat (n + 1)) ∧ some set = provenAt s vaultId (n + 1) := by
  constructor
  · intro linked
    obtain ⟨m, stored, verified⟩ := chainLink_eq_ok linked
    obtain ⟨-, signed, succeeds, ofVault, epoch, decodes⟩ := verifyManifest_eq_ok verified
    obtain ⟨-, names⟩ := getMembershipManifest_names stored
    have mayIssue := (checkSuccession_iff inRange names).mp succeeds
    rw [names] at signed epoch decodes
    refine ⟨⟨m, _, stored, decodes, signed, mayIssue⟩, congrArg some ?_⟩
    rw [membersAt_eq stored decodes, ← ofVault, ← epoch]
  · rintro ⟨⟨m, _, stored, decodes, signed, mayIssue⟩, same⟩
    obtain ⟨ofVault, names⟩ := getMembershipManifest_names stored
    cases Option.some.inj same
    rw [membersAt_eq stored decodes]
    refine chainLink_of_stored stored ?_
    have succeeds := (checkSuccession_iff inRange names).mpr mayIssue
    simp only [verifyManifest, ofVault, names, ne_eq, not_true, if_false, signed, succeeds, decodes,
      ok_bind]

/-- The walk reaches an epoch exactly when every epoch up to it was issued. -/
theorem walk_iff (inRange : n < 2 ^ 64) :
    walk (chainLink P s vaultId anchor) n = .ok result ↔
      (∀ k, 1 ≤ k → k ≤ n → Issued P s vaultId anchor (UInt64.ofNat k)) ∧
        result = provenAt s vaultId n := by
  induction n generalizing result with
  | zero =>
    constructor
    · intro reached
      cases reached
      exact ⟨fun k first last => absurd last (by omega), rfl⟩
    · rintro ⟨-, rfl⟩
      rfl
  | succ n ih =>
    have before : ∀ result, walk (chainLink P s vaultId anchor) n = .ok result ↔ _ :=
      fun _ => ih (by omega)
    constructor
    · intro reached
      obtain ⟨prev, _, walked, linked, rfl⟩ := walk_succ_eq_ok reached
      obtain ⟨issued, rfl⟩ := (before prev).mp walked
      obtain ⟨last, same⟩ := (chainLink_iff inRange).mp linked
      refine ⟨fun k first within => ?_, same⟩
      rcases Nat.le_succ_iff.mp within with earlier | rfl
      · exact issued k first earlier
      · exact last
    · rintro ⟨issued, rfl⟩
      have walked := (before _).mpr ⟨fun k first within => issued k first (by omega), rfl⟩
      exact walk_succ walked ((chainLink_iff inRange).mpr ⟨issued _ (by omega) le_rfl, rfl⟩)

theorem verifyChainToEpoch_iff (positive : target ≠ 0) :
    verifyChainToEpoch P s vaultId target anchor = .ok members ↔
      (∀ epoch, 1 ≤ epoch → epoch ≤ target → Issued P s vaultId anchor epoch) ∧
        members = { vaultId, keyEpoch := target, members := membersAt s vaultId target } := by
  obtain ⟨n, isTarget⟩ : ∃ n, target.toNat = n + 1 :=
    Nat.exists_eq_succ_of_ne_zero fun zero => positive (UInt64.toNat_inj.mp (by simpa))
  have proven : provenAt s vaultId target.toNat =
      some { vaultId, keyEpoch := target, members := membersAt s vaultId target } := by
    rw [isTarget, provenAt, ← isTarget, UInt64.ofNat_toNat]
  rw [verifyChainToEpoch_eq_ok, and_iff_right positive, walk_iff target.toNat_lt, proven]
  refine and_congr ?_ Option.some_inj
  constructor
  · intro issued epoch first within
    have := issued epoch.toNat (UInt64.le_iff_toNat_le.mp first) (UInt64.le_iff_toNat_le.mp within)
    rwa [UInt64.ofNat_toNat] at this
  · intro issued k first within
    have value : (UInt64.ofNat k).toNat = k :=
      UInt64.toNat_ofNat_of_lt' (lt_of_le_of_lt within target.toNat_lt)
    exact issued _ (UInt64.le_iff_toNat_le.mpr (value.symm ▸ first))
      (UInt64.le_iff_toNat_le.mpr (value.symm ▸ within))

/-! ## The reads of the walk -/

/-- Reads of manifests, recorded in order. -/
abbrev ChainM := EStateM VaultError (List UInt64)

/-- Reads the candidates of an epoch from storage. -/
def readCandidates (s : Storage) (vaultId : Bytes) (epoch : UInt64) :
    ChainM (List MembershipManifest) := do
  modify fun log => log ++ [epoch]
  readM fun _ => storedCandidates s vaultId epoch

/-- `verify_chain` on epochs that are read when the walk comes to them. -/
def verifyChainReading (P : Primitives) (vaultId anchor : Bytes)
    (epochs : List (ChainM (List MembershipManifest))) : ChainM VerifiedMembers := do
  let last ← epochs.foldlM (fun prev read => do
    let candidates ← read
    let verified ← readM fun _ =>
      verifyCandidates P vaultId anchor prev .authorityInvalid candidates
    pure (some verified)) none
  readM fun _ => match last with
    | some members => .ok members
    | none => .error .epochInvalid

/-- `verify_chain_to_epoch` with its reads. -/
def verifyChainToEpochReading (P : Primitives) (s : Storage) (vaultId : Bytes)
    (targetEpoch : UInt64) (anchor : Bytes) : ChainM VerifiedMembers :=
  if targetEpoch = 0 then throw .epochInvalid
  else verifyChainReading P vaultId anchor
    ((List.range' 1 targetEpoch.toNat).map fun epoch =>
      readCandidates s vaultId (UInt64.ofNat epoch))

/-- The epochs a walk that looks at `n` links has read. -/
def epochsTo (n : Nat) : List UInt64 := (List.range' 1 n).map UInt64.ofNat

theorem epochsTo_succ (n : Nat) : epochsTo (n + 1) = epochsTo n ++ [UInt64.ofNat (n + 1)] := by
  unfold epochsTo
  rw [List.range'_concat, List.map_append, Nat.one_mul, Nat.add_comm 1 n]
  rfl

theorem readingWalk_run (n : Nat) (log : List UInt64) :
    (((List.range' 1 n).map fun epoch => readCandidates s vaultId (UInt64.ofNat epoch)).foldlM
      (fun prev read => do
        let candidates ← read
        let verified ← readM fun _ =>
          verifyCandidates P vaultId anchor prev .authorityInvalid candidates
        pure (some verified)) none).run log =
      match walk (chainLink P s vaultId anchor) n with
      | .ok result => .ok result (log ++ epochsTo (visited (chainLink P s vaultId anchor) n))
      | .error e => .error e (log ++ epochsTo (visited (chainLink P s vaultId anchor) n)) := by
  induction n with
  | zero => simp [walk, visited, epochsTo, EStateM.run, pure, EStateM.pure]
  | succ n ih =>
    rw [List.range'_concat, List.map_append, List.foldlM_append, EStateM.run_bind, ih]
    cases walked : walk (chainLink P s vaultId anchor) n with
    | error => simp only [walk, visited, walked, error_bind]
    | ok prev =>
      have all : visited (chainLink P s vaultId anchor) n = n := by
        cases n with
        | zero => rfl
        | succ n =>
          obtain ⟨_, before⟩ := walk_ok_of_le walked n.le_succ
          simp only [visited, before]
      simp only [Nat.one_mul, Nat.add_comm 1 n, List.map_cons, List.map_nil, List.foldlM_cons,
        List.foldlM_nil, bind_pure, walk, visited, walked, ok_bind, all]
      simp only [readCandidates, EStateM.run_bind, EStateM.run_modify, readM_run, chainLink]
      rw [epochsTo_succ, ← List.append_assoc]
      cases storedCandidates s vaultId (UInt64.ofNat (n + 1)) with
      | error => rfl
      | ok candidates =>
        simp only [ok_bind]
        cases verifyCandidates P vaultId anchor prev .authorityInvalid candidates <;> rfl

/-- Chain verification proves the set of an epoch when all up to it were issued and nothing
otherwise, and reads no manifest behind the first gap. -/
theorem chain_verification_is_exact (P : Primitives) (s : Storage) (vaultId anchor : Bytes)
    (target : UInt64) (positive : 1 ≤ target) :
    (∀ members, verifyChainToEpoch P s vaultId target anchor = .ok members ↔
      (∀ epoch, 1 ≤ epoch → epoch ≤ target → Issued P s vaultId anchor epoch) ∧
        members = { vaultId, keyEpoch := target, members := membersAt s vaultId target }) ∧
    (∀ s' : Storage, (∀ epoch, 1 ≤ epoch → epoch ≤ target →
        s.getMembershipManifest vaultId epoch = s'.getMembershipManifest vaultId epoch) →
      verifyChainToEpoch P s vaultId target anchor =
        verifyChainToEpoch P s' vaultId target anchor) ∧
    (valueOf ((verifyChainToEpochReading P s vaultId target anchor).run []) =
        verifyChainToEpoch P s vaultId target anchor ∧
      ∃ count, finalState ((verifyChainToEpochReading P s vaultId target anchor).run []) =
          epochsTo count ∧ count ≤ target.toNat ∧
        ∀ m, (∀ manifest, s.getMembershipManifest vaultId (UInt64.ofNat (m + 1)) ≠
          .ok (some manifest)) → count ≤ m + 1) := by
  have nonzero : target ≠ 0 := by
    rintro rfl
    exact absurd positive (by decide)
  have ran : valueOf ((verifyChainToEpochReading P s vaultId target anchor).run []) =
        verifyChainToEpoch P s vaultId target anchor ∧
      finalState ((verifyChainToEpochReading P s vaultId target anchor).run []) =
        epochsTo (visited (chainLink P s vaultId anchor) target.toNat) := by
    rw [verifyChainToEpochReading, if_neg nonzero, verifyChainToEpoch_eq_walk nonzero,
      verifyChainReading, EStateM.run_bind, readingWalk_run]
    cases walk (chainLink P s vaultId anchor) target.toNat with
    | error => exact ⟨rfl, by simp⟩
    | ok last => cases last <;> exact ⟨rfl, by simp [readM_run]⟩
  obtain ⟨sameValue, reads⟩ := ran
  refine ⟨fun members => verifyChainToEpoch_iff nonzero,
    fun s' same => verifyChainToEpoch_congr same, sameValue, _, reads, visited_le _ _, ?_⟩
  intro m missing
  refine visited_le_of_broken (fun prev set linked => ?_) _
  obtain ⟨manifest, stored, -⟩ := chainLink_eq_ok linked
  exact missing manifest stored

/-- A storage that holds the first manifest of a vault. -/
def Sample.firstEpoch : Storage :=
  (({} : Storage).putMembershipManifest
    (manifest 1 [{ ed25519Pub := ownerKey, role := .admin }])).toOption.getD {}

/-- A record that names the last epoch there is costs two reads where one manifest is stored. -/
theorem chain_verification_is_exact_far :
    ∃ count ≤ 2, finalState ((verifyChainToEpochReading .transparent Sample.firstEpoch Sample.vaultId
      0xFFFFFFFFFFFFFFFF Sample.ownerKey).run []) = epochsTo count := by
  have missing : Sample.firstEpoch.getMembershipManifest Sample.vaultId (UInt64.ofNat (1 + 1)) =
      .ok none := rfl
  obtain ⟨-, -, -, count, reads, -, bounded⟩ := chain_verification_is_exact .transparent
    Sample.firstEpoch Sample.vaultId Sample.ownerKey 0xFFFFFFFFFFFFFFFF (by decide)
  exact ⟨count, bounded 1 (fun _ stored => by cases missing.symm.trans stored), reads⟩

end UniSsh
