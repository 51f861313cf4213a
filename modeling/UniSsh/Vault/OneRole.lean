import UniSsh.Vault.Authority
import UniSsh.Vault.Payload

/-!
# One role for each key

The builder of a manifest sorts its members and refuses a repeated key; the parser checks neither,
so a key may have two roles. It has one exactly where the keys of the payload ascend.
-/

namespace UniSsh

variable {set : VerifiedMembers}

/-- Without repeated keys the two searches for a role agree. -/
theorem VerifiedMembers.isAdmin_iff (distinct : (set.members.map Member.ed25519Pub).Nodup)
    (key : Bytes) : set.isAdmin key = true ↔ set.roleOf key = some .admin := by
  constructor
  · intro isAdmin
    obtain ⟨m, inSet, named⟩ := List.any_eq_true.mp isAdmin
    obtain ⟨rfl, role⟩ := of_decide_eq_true named
    rw [set.roleOf_of_mem distinct inSet, role]
  · intro hasRole
    obtain ⟨m, found, role⟩ := map_eq_some_iff.mp hasRole
    have named : m.ed25519Pub = key := by simpa using List.find?_some found
    exact List.any_eq_true.mpr ⟨m, List.mem_of_find?_eq_some found, decide_eq_true ⟨named, role⟩⟩

/-! ## The keys of a payload -/

/-- The keys of so many entries, each after a role byte and two bytes of length. -/
def entryKeys : Nat → Bytes → List Bytes
  | 0, _ => []
  | count + 1, entries =>
    let len := ofBeBytes ((entries.drop 1).take 2)
    (entries.drop 3).take len :: entryKeys count (entries.drop (3 + len))

/-- The keys of a payload: those of the entries after the domain, the epoch and the count. -/
def payloadKeys (payload : Bytes) : List Bytes :=
  entryKeys (ofBeBytes ((payload.drop (manifestDomain.length + 8)).take 4))
    (payload.drop (manifestDomain.length + 8 + 4))

/-- Every key of the payload is greater than the keys before it. -/
def KeysAscend (payload : Bytes) : Prop :=
  (payloadKeys payload).Pairwise fun a b => compare a b = .lt

theorem fromU8_eq_some (isRole : MemberRole.fromU8 n = some role) : n = role.toU8 := by
  unfold MemberRole.fromU8 at isRole
  split_ifs at isRole with viewer editor admin
  · cases isRole
    exact viewer
  · cases isRole
    exact editor
  · cases isRole
    exact admin

/-- Entries that are read are the encodings of the members. -/
theorem parseMembers_encodes (parsed : parseMembers count p = .ok members) :
    members.length = count ∧ entryKeys count p = members.map Member.ed25519Pub ∧
      ∃ encoded, members.mapM encodeMember = .ok encoded ∧ p = encoded.flatten := by
  refine parseMembers_induction ?_ ?_ parsed
  · exact ⟨rfl, rfl, [], rfl, rfl⟩
  intro count roleByte role hi lo p _ isRole enough ih
  obtain ⟨length, keys, encoded, wrote, ended⟩ := ih
  have fits := ofBeBytes_lt [hi, lo]
  have taken : (p.take (ofBeBytes [hi, lo])).length = ofBeBytes [hi, lo] :=
    List.length_take_of_le enough
  have digits : beBytes 2 (ofBeBytes [hi, lo]) = [hi, lo] := beBytes_ofBeBytes [hi, lo]
  have written : encodeMember ⟨p.take (ofBeBytes [hi, lo]), role⟩ =
      .ok (roleByte :: hi :: lo :: p.take (ofBeBytes [hi, lo])) := by
    rw [encodeMember, if_neg (by rw [taken]; simp at fits; omega), lenPrefixed, taken, digits,
      fromU8_eq_some isRole]
    rfl
  refine ⟨congrArg Nat.succ length, ?_,
    (roleByte :: hi :: lo :: p.take (ofBeBytes [hi, lo])) :: encoded, ?_, ?_⟩
  · simp only [entryKeys, List.map_cons, ← keys, Nat.add_comm 3, List.drop_succ_cons,
      List.drop_zero, List.take_succ_cons, List.take_zero]
  · rw [List.mapM_cons, written, wrote]
    rfl
  · rw [List.flatten_cons, ← ended]
    simp

/-- A payload that is read is what its members, in the order they stand, are written as. -/
theorem parseMemberPayload_encodes (parsed : parseMemberPayload keyEpoch payload = .ok members) :
    payloadKeys payload = members.map Member.ed25519Pub ∧ members.length < 2 ^ 32 ∧
      ∃ encoded, members.mapM encodeMember = .ok encoded ∧
        payload = manifestDomain ++ beBytes 8 keyEpoch.toNat ++ beBytes 4 members.length ++
          encoded.flatten := by
  obtain ⟨long, isDomain, isEpoch, parsed⟩ := parseMemberPayload_eq_ok parsed
  obtain ⟨length, keys, encoded, wrote, ended⟩ := parseMembers_encodes parsed
  refine ⟨keys, ?_, encoded, wrote, ?_⟩
  · rw [length]
    exact (ofBeBytes_lt _).trans_le (Nat.pow_le_pow_right (by decide) (List.length_take_le 4 _))
  · have digits {w : Nat} {b : Bytes} (long : w ≤ b.length) :
        beBytes w (ofBeBytes (b.take w)) = b.take w := by
      have same := beBytes_ofBeBytes (b.take w)
      rwa [List.length_take_of_le long] at same
    have split (d : Nat) : payload = payload.take d ++ (payload.drop d).take 8 ++
        (payload.drop (d + 8)).take 4 ++ payload.drop (d + 8 + 4) := by
      simp only [← List.drop_drop, List.append_assoc, List.take_append_drop]
    refine (split manifestDomain.length).trans ?_
    rw [isDomain, length, ← isEpoch, digits (by rw [List.length_drop]; omega),
      digits (by rw [List.length_drop]; omega), ended]

/-! ## One role for each key -/

variable {P : Primitives}

theorem keysAscend_iff {members : List Member} :
    (members.map Member.ed25519Pub).Pairwise (fun a b => compare a b = .lt) ↔
      (members.map Member.ed25519Pub).Nodup ∧ members.Pairwise Member.keyLE := by
  unfold List.Nodup
  rw [List.pairwise_map, List.pairwise_map, ← List.pairwise_and_iff]
  refine List.Pairwise.iff fun a b => ?_
  unfold Member.keyLE
  cases order : compare a.ed25519Pub b.ed25519Pub with
  | lt =>
    have differ : a.ed25519Pub ≠ b.ed25519Pub := by
      intro same
      rw [same, Std.compare_self] at order
      cases order
    simp [differ]
  | eq =>
    have same := Std.LawfulEqCmp.eq_of_compare order
    simp [same]
  | gt => simp

section

variable {manifest : MembershipManifest} {vaultId genesisOwner : Bytes}
  {prev : Option VerifiedMembers}
  (verified : verifyManifest P manifest vaultId prev genesisOwner = .ok set)
include verified

theorem keysAscend_verified : KeysAscend manifest.manifestBlob ↔
    (set.members.map Member.ed25519Pub).Nodup ∧ set.members.Pairwise Member.keyLE := by
  have parsed := (verifyManifest_eq_ok verified).2.2.2.2.2
  rw [KeysAscend, (parseMemberPayload_encodes parsed).1]
  exact keysAscend_iff

/-- A payload whose keys ascend is the one the builder writes for its members. -/
theorem canonicalMemberPayload_verified (ascending : KeysAscend manifest.manifestBlob) :
    canonicalMemberPayload manifest.keyEpoch set.members = .ok manifest.manifestBlob := by
  obtain ⟨distinct, inOrder⟩ := (keysAscend_verified verified).mp ascending
  have parsed := (verifyManifest_eq_ok verified).2.2.2.2.2
  obtain ⟨-, few, encoded, wrote, isPayload⟩ := parseMemberPayload_encodes parsed
  have sorted : set.members.insertionSort (fun a b => (compare a.ed25519Pub b.ed25519Pub).isLE) =
      set.members := inOrder.insertionSort_eq
  unfold canonicalMemberPayload
  simp only [sorted, neighbours_differ distinct, wrote]
  rw [if_neg Bool.false_ne_true, if_neg (by omega), isPayload]
  rfl

end

/-- A verified set has one role for each key, and the payload its builder writes, exactly when the
keys of the payload ascend. -/
theorem set_has_one_role_iff {manifest : MembershipManifest} {vaultId genesisOwner : Bytes}
    {prev : Option VerifiedMembers}
    (verified : verifyManifest P manifest vaultId prev genesisOwner = .ok set) :
    ((set.members.map Member.ed25519Pub).Nodup ∧
        canonicalMemberPayload manifest.keyEpoch set.members = .ok manifest.manifestBlob ∧
        set.members.Pairwise Member.keyLE ∧
        (∀ key, set.isAdmin key = true ↔ set.roleOf key = some .admin) ∧
        (∀ key, set.isAdmin key = true → set.canWrite key = true) ↔
      KeysAscend manifest.manifestBlob) ∧
    ∀ manifest' vaultId' genesisOwner' prev' set',
      verifyManifest P manifest' vaultId' prev' genesisOwner' = .ok set' →
      KeysAscend manifest.manifestBlob → KeysAscend manifest'.manifestBlob →
      manifest'.keyEpoch = manifest.keyEpoch → (∀ m, m ∈ set'.members ↔ m ∈ set.members) →
      manifest'.manifestBlob = manifest.manifestBlob := by
  have ascend := keysAscend_verified verified
  refine ⟨⟨?_, fun ascending => ?_⟩, ?_⟩
  · rintro ⟨distinct, -, inOrder, -⟩
    exact ascend.mpr ⟨distinct, inOrder⟩
  · obtain ⟨distinct, inOrder⟩ := ascend.mp ascending
    refine ⟨distinct, canonicalMemberPayload_verified verified ascending, inOrder,
      set.isAdmin_iff distinct, fun key isAdmin => ?_⟩
    simp [VerifiedMembers.canWrite, (set.isAdmin_iff distinct key).mp isAdmin]
  · intro manifest' _ _ _ set' verified' ascending ascending' epoch same
    obtain ⟨distinct, inOrder⟩ := ascend.mp ascending
    obtain ⟨distinct', inOrder'⟩ := (keysAscend_verified verified').mp ascending'
    have perm := (List.perm_ext_iff_of_nodup distinct'.of_map distinct.of_map).mpr same
    -- members in key order, no key twice, are determined by which they are
    have isSame : set'.members = set.members :=
      perm.eq_of_pairwise (fun a b here there le ge =>
        List.inj_on_of_nodup_map distinct (perm.mem_iff.mp here) there (le.antisymm ge)) inOrder' inOrder
    have payload := canonicalMemberPayload_verified verified' ascending'
    rw [epoch, isSame, canonicalMemberPayload_verified verified ascending] at payload
    exact (Except.ok.inj payload).symm

open Sample

/-- The owner's own set. -/
theorem set_has_one_role_iff_owner :
    ∃ set, verifyManifest .transparent (manifest 1 [⟨ownerKey, .admin⟩])
        vaultId none ownerKey = .ok set ∧
      set.isAdmin ownerKey = true ∧ set.canWrite ownerKey = true := by
  have verified : verifyManifest .transparent (manifest 1 [⟨ownerKey, .admin⟩])
      vaultId none ownerKey = .ok ⟨vaultId, 1, [⟨ownerKey, .admin⟩]⟩ := by decide +kernel
  have ascending : KeysAscend (manifest 1 [⟨ownerKey, .admin⟩]).manifestBlob := by
    unfold KeysAscend
    decide +kernel
  obtain ⟨-, -, -, -, writes⟩ := (set_has_one_role_iff verified).1.mpr ascending
  exact ⟨_, verified, by decide +kernel, writes ownerKey (by decide +kernel)⟩

/-- The owner's payload of the first epoch that lists them as a viewer and again as an admin. -/
def Sample.twoRoles : Bytes :=
  manifestDomain ++ beBytes 8 1 ++ beBytes 4 2 ++ (0 :: lenPrefixed 2 ownerKey) ++
    (2 :: lenPrefixed 2 ownerKey)

/-- Signed by the owner it is accepted: they are an admin whose role is viewer and who may not
write. -/
theorem repeated_key_has_two_roles :
    ∃ set, verifyManifest .transparent
        { vaultId := vaultId, keyEpoch := 1, manifestBlob := twoRoles
          signature := signature owner (manifestAad vaultId 1) twoRoles
          authorPubkey := ownerKey } vaultId none ownerKey = .ok set ∧
      ¬ (set.members.map Member.ed25519Pub).Nodup ∧ set.isAdmin ownerKey = true ∧
      set.roleOf ownerKey = some .viewer ∧ set.canWrite ownerKey = false :=
  ⟨⟨vaultId, 1, [⟨ownerKey, .viewer⟩, ⟨ownerKey, .admin⟩]⟩, by decide +kernel,
    by decide +kernel, by decide +kernel, by decide +kernel, by decide +kernel⟩

end UniSsh
