import UniSsh.Vault.Membership

/-!
# Member payloads read back

A payload lists its members in key order, each once, and parsing gives the list back.
-/

namespace UniSsh

open List

/-! ## Reading back what was written -/

theorem MemberRole.fromU8_toU8 (role : MemberRole) : fromU8 role.toU8 = some role := by
  cases role <;> rfl

variable {members : List Member}

theorem parseMembers_encoded (written : members.mapM encodeMember = .ok encoded) :
    parseMembers members.length encoded.flatten = .ok members := by
  induction members generalizing encoded with
  | nil =>
    cases written
    rfl
  | cons m _ ih =>
    rw [mapM_cons] at written
    obtain ⟨_, encodedFirst, written⟩ := bind_eq_ok.mp written
    obtain ⟨_, encodedRest, written⟩ := bind_eq_ok.mp written
    cases written
    unfold encodeMember at encodedFirst
    split at encodedFirst
    · cases encodedFirst
    next =>
    cases encodedFirst
    obtain ⟨hi, lo, digits⟩ : ∃ hi lo, beBytes 2 m.ed25519Pub.length = [hi, lo] := ⟨_, _, rfl⟩
    have length : ofBeBytes [hi, lo] = m.ed25519Pub.length := by
      rw [← digits, ofBeBytes_beBytes]
      omega
    simp only [flatten_cons, lenPrefixed, digits, cons_append, nil_append,
      length_cons, parseMembers, MemberRole.fromU8_toU8, length, length_append]
    rw [if_neg (by omega), drop_left, ih encodedRest, take_left]
    rfl

/-- The members of a payload, in its order. -/
def payloadOrder (members : List Member) : List Member :=
  members.insertionSort fun a b => (compare a.ed25519Pub b.ed25519Pub).isLE

variable {keyEpoch : UInt64}

theorem parseMemberPayload_canonical
    (written : canonicalMemberPayload keyEpoch members = .ok payload) :
    parseMemberPayload keyEpoch payload = .ok (payloadOrder members) := by
  unfold canonicalMemberPayload at written
  dsimp only at written
  split at written
  · cases written
  split at written
  · cases written
  next =>
  obtain ⟨_, wrote, written⟩ := bind_eq_ok.mp written
  cases written
  have dropDomain (rest : Bytes) : (manifestDomain ++ rest).drop manifestDomain.length = rest :=
    drop_left
  have dropEpoch (rest : Bytes) : (manifestDomain ++ (beBytes 8 keyEpoch.toNat ++ rest)).drop
      (manifestDomain.length + 8) = rest := by
    rw [← drop_drop, dropDomain, drop_left' (beBytes_length _ _)]
  have dropCount (n : Nat) (rest : Bytes) : (manifestDomain ++ (beBytes 8 keyEpoch.toNat ++
      (beBytes 4 n ++ rest))).drop (manifestDomain.length + 8 + 4) = rest := by
    rw [← drop_drop, dropEpoch, drop_left' (beBytes_length _ _)]
  have epochFits : keyEpoch.toNat < 256 ^ 8 := keyEpoch.toNat_lt
  unfold parseMemberPayload
  simp only [append_assoc, length_append, beBytes_length, dropDomain, dropEpoch, dropCount]
  rw [if_neg, if_neg, take_left' (beBytes_length _ _), ofBeBytes_beBytes, Nat.mod_eq_of_lt]
  · exact parseMembers_encoded wrote
  · omega
  · rw [take_left' (beBytes_length _ _), ofBeBytes_beBytes, Nat.mod_eq_of_lt epochFits]
    exact fun differs => differs rfl
  · rw [take_left]
    rintro (_ | other)
    · omega
    · exact other rfl

/-! ## Roles -/

def Member.keyLE (a b : Member) : Prop := (compare a.ed25519Pub b.ed25519Pub).isLE = true

instance : DecidableRel Member.keyLE := fun a b =>
  inferInstanceAs (Decidable ((compare a.ed25519Pub b.ed25519Pub).isLE = true))

instance : IsTrans Member Member.keyLE :=
  ⟨fun _ _ _ first second => Std.TransCmp.isLE_trans first second⟩

instance : Std.Total Member.keyLE where
  total a b := by
    unfold Member.keyLE
    have swapped : compare b.ed25519Pub a.ed25519Pub =
        (compare a.ed25519Pub b.ed25519Pub).swap := Std.OrientedCmp.eq_swap
    rw [swapped]
    cases compare a.ed25519Pub b.ed25519Pub <;> simp

theorem Member.keyLE.antisymm {a b : Member} (le : a.keyLE b) (ge : b.keyLE a) :
    a.ed25519Pub = b.ed25519Pub :=
  Std.LawfulEqCmp.eq_of_compare (Std.OrientedCmp.isLE_antisymm le ge)

theorem nodup_of_neighbours {sorted : List Member} (inOrder : sorted.Pairwise Member.keyLE)
    (differ : ((sorted.zip (sorted.drop 1)).any fun pair =>
      pair.1.ed25519Pub = pair.2.ed25519Pub) = false) : (sorted.map Member.ed25519Pub).Nodup := by
  induction sorted with
  | nil => exact nodup_nil
  | cons a rest ih =>
    obtain ⟨below, inOrder⟩ := pairwise_cons.mp inOrder
    cases rest with
    | nil => simp
    | cons b rest =>
      have differ : decide (a.ed25519Pub = b.ed25519Pub) = false ∧
          (((b :: rest).zip rest).any fun pair => pair.1.ed25519Pub = pair.2.ed25519Pub) =
            false := Bool.or_eq_false_iff.mp differ
      refine nodup_cons.mpr ⟨?_, ih inOrder differ.2⟩
      intro repeated
      obtain ⟨c, member, same⟩ := mem_map.mp repeated
      -- The next key lies between two equal ones.
      have next : b.keyLE a := by
        unfold Member.keyLE
        rw [← same]
        rcases mem_cons.mp member with rfl | later
        · exact refl_of Member.keyLE c
        · exact (pairwise_cons.mp inOrder).1 c later
      exact of_decide_eq_false differ.1 ((below b mem_cons_self).antisymm next)

variable {set : VerifiedMembers} {m : Member}

/-- Without repeated keys a member has its own role. -/
theorem VerifiedMembers.roleOf_of_mem (distinct : (set.members.map Member.ed25519Pub).Nodup)
    (inSet : m ∈ set.members) : set.roleOf m.ed25519Pub = some m.role := by
  unfold VerifiedMembers.roleOf
  cases found : set.members.find? fun other => other.ed25519Pub = m.ed25519Pub with
  | none => exact absurd (find?_eq_none.mp found m inSet) (by simp)
  | some other =>
    have named : other.ed25519Pub = m.ed25519Pub := by simpa using find?_some found
    rw [inj_on_of_nodup_map distinct (mem_of_find?_eq_some found) inSet named, map_some]

theorem payloadOrder_distinct (written : canonicalMemberPayload keyEpoch members = .ok payload) :
    (payloadOrder members).Pairwise Member.keyLE ∧
      ((payloadOrder members).map Member.ed25519Pub).Nodup := by
  have inOrder : (payloadOrder members).Pairwise Member.keyLE :=
    pairwise_insertionSort Member.keyLE members
  refine ⟨inOrder, ?_⟩
  unfold canonicalMemberPayload at written
  dsimp only at written
  split at written
  · cases written
  · next differ => exact nodup_of_neighbours inOrder (Bool.eq_false_iff.mpr differ)

theorem roleOf_payloadOrder (written : canonicalMemberPayload keyEpoch members = .ok payload)
    (isSet : set.members = payloadOrder members) (listed : m ∈ members) :
    set.roleOf m.ed25519Pub = some m.role := by
  refine VerifiedMembers.roleOf_of_mem (isSet ▸ (payloadOrder_distinct written).2) ?_
  rw [isSet]
  exact (mem_insertionSort _).mpr listed

variable {P : Primitives} {adminKeyset : UnlockedKeyset} {vaultId genesisOwner : Bytes}
  {manifest : MembershipManifest} {prev : Option VerifiedMembers} {own : Bytes}

theorem canWrite_of_listed
    (built : buildManifest P adminKeyset vaultId keyEpoch members = .ok manifest)
    (verified : verifyManifest P manifest vaultId prev genesisOwner = .ok set)
    (listed : { ed25519Pub := own, role := .admin } ∈ members) :
    set.canWrite own = true := by
  obtain ⟨_, written, built⟩ := bind_eq_ok.mp built
  obtain ⟨_, -, built⟩ := bind_eq_ok.mp built
  cases built
  -- verified, a manifest built from a list has the list's members
  obtain ⟨-, -, -, -, -, parsed⟩ := verifyManifest_eq_ok verified
  rw [parseMemberPayload_canonical written] at parsed
  have role := roleOf_payloadOrder written (Except.ok.inj parsed).symm listed
  unfold VerifiedMembers.canWrite
  simp [role]

/-! ## Sets that can be issued -/

/-- A list of members with a payload: no key twice, and lengths that fit their fields. -/
structure Issuable (members : List Member) : Prop where
  distinct : (members.map Member.ed25519Pub).Nodup
  count : members.length < 2 ^ 32
  keys : ∀ m ∈ members, m.ed25519Pub.length ≤ 65535

theorem neighbours_differ (distinct : (members.map Member.ed25519Pub).Nodup) :
    ((members.zip (members.drop 1)).any fun pair => pair.1.ed25519Pub = pair.2.ed25519Pub) =
      false := by
  induction members with
  | nil => rfl
  | cons _ rest ih =>
    obtain ⟨notIn, distinct⟩ := nodup_cons.mp distinct
    cases rest with
    | nil => rfl
    | cons =>
      refine Bool.or_eq_false_iff.mpr ⟨decide_eq_false fun same => notIn ?_, ih distinct⟩
      rw [same]
      exact mem_cons_self

theorem encodeMembers_returns (keys : ∀ m ∈ members, m.ed25519Pub.length ≤ 65535) :
    ∃ encoded, members.mapM encodeMember = .ok encoded := by
  induction members with
  | nil => exact ⟨[], rfl⟩
  | cons m _ ih =>
    obtain ⟨_, encodedRest⟩ := ih fun m' member => keys m' (mem_cons_of_mem _ member)
    have fits : ¬ m.ed25519Pub.length > 65535 := not_lt.mpr (keys m mem_cons_self)
    rw [mapM_cons, encodeMember, if_neg fits, encodedRest]
    exact ⟨_, rfl⟩

theorem Issuable.payload (issuable : Issuable members) (keyEpoch : UInt64) :
    ∃ payload, canonicalMemberPayload keyEpoch members = .ok payload := by
  have order : (payloadOrder members).Perm members := perm_insertionSort _ members
  have distinct := (order.map Member.ed25519Pub).nodup_iff.mpr issuable.distinct
  obtain ⟨_, wrote⟩ := @encodeMembers_returns (payloadOrder members)
    fun m member => issuable.keys m (order.mem_iff.mp member)
  have count : ¬ (payloadOrder members).length ≥ 2 ^ 32 := by
    rw [order.length_eq]
    exact not_le.mpr issuable.count
  simp only [canonicalMemberPayload, ← payloadOrder.eq_1]
  rw [if_neg (Bool.eq_false_iff.mp (neighbours_differ distinct)), if_neg count, wrote]
  exact ⟨_, rfl⟩

/-- The manifest of an admin over an issuable set is built and verifies against the set before
it. -/
theorem buildManifest_verifies {prev : VerifiedMembers} (issuable : Issuable members)
    (fits : vaultId.length ≤ 65535) (notLast : prev.keyEpoch ≠ 0xFFFFFFFFFFFFFFFF)
    (isAdmin : prev.isAdmin (adminKeyset.verifying P) = true) :
    ∃ m, buildManifest P adminKeyset vaultId (prev.keyEpoch + 1) members = .ok m ∧
      verifyManifest P m vaultId (some prev) genesisOwner =
        .ok { vaultId, keyEpoch := prev.keyEpoch + 1, members := payloadOrder members } := by
  obtain ⟨payload, written⟩ := issuable.payload (prev.keyEpoch + 1)
  have markerFits : manifestAadMarker.length ≤ 65535 := by decide
  have aadFits : (manifestAad vaultId (prev.keyEpoch + 1)).Fits := ⟨fits, markerFits⟩
  obtain ⟨signature, signed⟩ := signContent_returns P adminKeyset aadFits payload
  refine ⟨_, bind_eq_ok.mpr ⟨payload, written, bind_eq_ok.mpr ⟨signature, signed, rfl⟩⟩, ?_⟩
  have succeeds : checkSuccession
      { vaultId, keyEpoch := prev.keyEpoch + 1, manifestBlob := payload, signature,
        authorPubkey := adminKeyset.verifying P } (some prev) genesisOwner = .ok () := by
    simp [checkSuccession, saturatingSucc, notLast, isAdmin]
  unfold verifyManifest
  rw [if_neg (not_not.mpr rfl), verifySigned_signContent P signed, ok_bind, succeeds, ok_bind,
    parseMemberPayload_canonical written]
  rfl

theorem isAdmin_payloadOrder (isSet : set.members = payloadOrder members)
    (listed : { ed25519Pub := own, role := .admin } ∈ members) : set.isAdmin own = true := by
  have inSet : { ed25519Pub := own, role := .admin } ∈ set.members := by
    rw [isSet]
    exact (mem_insertionSort _).mpr listed
  exact any_eq_true.mpr ⟨_, inSet, by simp⟩

end UniSsh
