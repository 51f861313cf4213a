import UniSsh.Base.Chain
import UniSsh.Keychain.Keyset
import UniSsh.Storage.Laws
import Mathlib.Data.List.Sort

/-!
# Membership, grants and the authority chain

One admin-signed manifest for each key epoch, signed by an admin of the epoch before or the
genesis owner; `verifyChainToEpoch` re-verifies the chain from storage, and depends on the
manifests up to the target only.
-/

namespace UniSsh

open List

/-- Errors of vault operations. -/
inductive VaultError where
  | notFound
  | decrypt
  | signatureInvalid
  | format
  | alreadyExists
  | authorityInvalid
  | epochInvalid
  | notAMember
  | pinMismatch
  | grantExpired
  | readOnly
  | crypto (error : CryptoError)
  | storage (error : StorageError)
  deriving DecidableEq

/-! ## Member sets -/

namespace MemberRole

def toU8 : MemberRole → UInt8
  | viewer => 0
  | editor => 1
  | admin => 2

def fromU8 (v : UInt8) : Option MemberRole :=
  if v = 0 then some viewer
  else if v = 1 then some editor
  else if v = 2 then some admin
  else none

end MemberRole

/-- One vault member of a manifest. -/
structure Member where
  ed25519Pub : Bytes
  role : MemberRole
  deriving DecidableEq

/-- The member set of a manifest that was verified. -/
structure VerifiedMembers where
  vaultId : Bytes
  keyEpoch : UInt64
  members : List Member
  deriving DecidableEq

namespace VerifiedMembers

variable (set : VerifiedMembers)

def contains (ed25519Pub : Bytes) : Bool :=
  set.members.any fun m => m.ed25519Pub = ed25519Pub

def isAdmin (ed25519Pub : Bytes) : Bool :=
  set.members.any fun m => m.ed25519Pub = ed25519Pub ∧ m.role = .admin

/-- The role of the first member with this key. -/
def roleOf (ed25519Pub : Bytes) : Option MemberRole :=
  (set.members.find? fun m => m.ed25519Pub = ed25519Pub).map Member.role

/-- Editors and admins may author items and vault records. -/
def canWrite (ed25519Pub : Bytes) : Bool :=
  set.roleOf ed25519Pub = some .editor ∨ set.roleOf ed25519Pub = some .admin

/-- A member that may write is a member: its role was found in the set. -/
theorem contains_of_canWrite (writes : set.canWrite ed25519Pub = true) :
    set.contains ed25519Pub = true := by
  unfold canWrite roleOf at writes
  cases found : set.members.find? fun m => m.ed25519Pub = ed25519Pub with
  | none => simp [found] at writes
  | some m =>
    have named := find?_some found
    exact any_eq_true.mpr ⟨m, mem_of_find?_eq_some found, named⟩

end VerifiedMembers

/-! ## Manifest payload -/

def manifestDomain : Bytes := ascii "unissh-manifest-v1"

/-- The marker in the `item_id` slot of a manifest's associated data. -/
def manifestAadMarker : Bytes := ascii "__manifest__"

def grantDomain : Bytes := ascii "unissh-grant-v1"

def manifestAad (vaultId : Bytes) (keyEpoch : UInt64) : AssociatedData :=
  { vaultId, itemId := manifestAadMarker, version := keyEpoch }

/-- One member: role, key length, key. -/
def encodeMember (m : Member) : Except VaultError Bytes :=
  if m.ed25519Pub.length > 65535 then .error .format
  else .ok (m.role.toU8 :: lenPrefixed 2 m.ed25519Pub)

/-- The deterministic serialisation of a member set, sorted by key and without duplicates. -/
def canonicalMemberPayload (keyEpoch : UInt64) (members : List Member) : Except VaultError Bytes :=
  let sorted := members.insertionSort fun a b => (compare a.ed25519Pub b.ed25519Pub).isLE
  if (sorted.zip (sorted.drop 1)).any fun pair => pair.1.ed25519Pub = pair.2.ed25519Pub then
    .error .format
  else if sorted.length ≥ 2 ^ 32 then .error .format
  else do
    let encoded ← sorted.mapM encodeMember
    .ok (manifestDomain ++ beBytes 8 keyEpoch.toNat ++ beBytes 4 sorted.length ++
      encoded.flatten)

/-- Reads exactly `count` members off the payload, which must then be used up. -/
def parseMembers : (count : Nat) → Bytes → Except VaultError (List Member)
  | 0, p => if p = [] then .ok [] else .error .format
  | count + 1, roleByte :: lenHi :: lenLo :: p =>
    match MemberRole.fromU8 roleByte with
    | none => .error .format
    | some role =>
      let len := ofBeBytes [lenHi, lenLo]
      if p.length < len then .error .format
      else do
        let rest ← parseMembers count (p.drop len)
        .ok ({ ed25519Pub := p.take len, role } :: rest)
  | _ + 1, _ => .error .format

/-- Parses a canonical payload, which must carry the manifest's own epoch. -/
def parseMemberPayload (keyEpoch : UInt64) (payload : Bytes) : Except VaultError (List Member) :=
  let domLen := manifestDomain.length
  if payload.length < domLen + 8 + 4 ∨ payload.take domLen ≠ manifestDomain then .error .format
  else if ofBeBytes ((payload.drop domLen).take 8) ≠ keyEpoch.toNat then .error .format
  else
    let count := ofBeBytes ((payload.drop (domLen + 8)).take 4)
    parseMembers count (payload.drop (domLen + 8 + 4))

/-- What is read, entry by entry. -/
@[elab_as_elim]
theorem parseMembers_induction {motive : Nat → Bytes → List Member → Prop} (nil : motive 0 [] [])
    (cons : ∀ {count roleByte role hi lo p rest}, MemberRole.fromU8 roleByte = some role →
      ofBeBytes [hi, lo] ≤ p.length → motive count (p.drop (ofBeBytes [hi, lo])) rest →
      motive (count + 1) (roleByte :: hi :: lo :: p) (⟨p.take (ofBeBytes [hi, lo]), role⟩ :: rest))
    {count : Nat} (parsed : parseMembers count p = .ok members) : motive count p members := by
  fun_induction parseMembers count p generalizing members
  case case1 =>
    cases parsed
    exact nil
  case case5 isRole _ enough ih =>
    obtain ⟨rest, parsedRest, made⟩ := bind_eq_ok.mp parsed
    cases made
    exact cons isRole (Nat.le_of_not_lt enough) (ih parsedRest)
  all_goals cases parsed

theorem parseMemberPayload_eq_ok (parsed : parseMemberPayload keyEpoch payload = .ok members) :
    manifestDomain.length + 8 + 4 ≤ payload.length ∧
      payload.take manifestDomain.length = manifestDomain ∧
      ofBeBytes ((payload.drop manifestDomain.length).take 8) = keyEpoch.toNat ∧
      parseMembers (ofBeBytes ((payload.drop (manifestDomain.length + 8)).take 4))
        (payload.drop (manifestDomain.length + 8 + 4)) = .ok members := by
  unfold parseMemberPayload at parsed
  dsimp only at parsed
  split_ifs at parsed with start isEpoch
  obtain ⟨long, isDomain⟩ := not_or.mp start
  exact ⟨Nat.le_of_not_lt long, not_not.mp isDomain, not_not.mp isEpoch, parsed⟩

/-! ## Verification -/

section Verification

variable (P : Primitives)

/-- `e.saturating_add(1)`. -/
def saturatingSucc (e : UInt64) : UInt64 :=
  if e = 0xFFFFFFFFFFFFFFFF then e else e + 1

/-- The epoch and author a manifest must have after `prev`. -/
def checkSuccession (manifest : MembershipManifest) (prev : Option VerifiedMembers)
    (genesisOwner : Bytes) : Except VaultError Unit :=
  match prev with
  | none =>
    if manifest.keyEpoch ≠ 1 then .error .epochInvalid
    else if manifest.authorPubkey ≠ genesisOwner then .error .authorityInvalid
    else .ok ()
  | some prev =>
    if manifest.keyEpoch ≠ saturatingSucc prev.keyEpoch then .error .epochInvalid
    else if prev.isAdmin manifest.authorPubkey then .ok ()
    else .error .authorityInvalid

/-- A record's signature under its claimed author: `format`, then `signatureInvalid`. -/
def verifySigned (authorPubkey : Bytes) (aad : AssociatedData) (content signature : Bytes) :
    Except VaultError Unit :=
  match verifyingKeyFromBytes P authorPubkey with
  | .error _ => .error .format
  | .ok author =>
    match verifyVersion P author (.fromContent P aad content) signature with
    | .error _ => .error .signatureInvalid
    | .ok () => .ok ()

/-- Signs `content` under associated data with the keyset's Ed25519 key. -/
def signContent (keyset : UnlockedKeyset) (aad : AssociatedData) (content : Bytes) :
    Except VaultError Bytes :=
  match signVersion P keyset.signing (.fromContent P aad content) with
  | .ok signature => .ok signature
  | .error e => .error (.crypto e)

variable {aad : AssociatedData} {keyset : UnlockedKeyset} {content signature : Bytes}

variable {authorPubkey : Bytes}

theorem verifySigned_eq_ok :
    verifySigned P authorPubkey aad content signature = .ok () ↔
      verifyingKeyFromBytes P authorPubkey = .ok authorPubkey ∧
        verifyVersion P authorPubkey (.fromContent P aad content) signature = .ok () := by
  unfold verifySigned
  cases parsed : verifyingKeyFromBytes P authorPubkey with
  | error => simp
  | ok key =>
    obtain rfl := verifyingKeyFromBytes_eq_ok P parsed
    cases verified : verifyVersion P key (.fromContent P aad content) signature with
    | error => simp [verified]
    | ok => simp [verified]

theorem signContent_eq_ok :
    signContent P keyset aad content = .ok signature ↔
      signVersion P keyset.signing (.fromContent P aad content) = .ok signature := by
  unfold signContent
  cases signVersion P keyset.signing (.fromContent P aad content) with
  | error => simp
  | ok => simp

theorem signContent_returns (keyset : UnlockedKeyset) (fits : aad.Fits) (content : Bytes) :
    ∃ signature, signContent P keyset aad content = .ok signature := by
  obtain ⟨bytes, canonical⟩ := fits.canonical
  have signing : ((VersionedObject.fromContent P aad content).signingBytes) =
      .ok (sigDomain ++ (bytes ++ P.sha256 content)) := by
    unfold VersionedObject.signingBytes
    rw [show (VersionedObject.fromContent P aad content).aad.canonical = .ok bytes from canonical]
    rfl
  have signed : signVersion P keyset.signing (.fromContent P aad content) = .ok
      (headerBytes .ed25519 ++ P.sign keyset.signing (sigDomain ++ (bytes ++ P.sha256 content))) := by
    unfold signVersion
    rw [signing]
    rfl
  exact ⟨_, (signContent_eq_ok P).mpr signed⟩

/-- What was verified has identifiers short enough to be signed again. -/
theorem verifySigned_fits (verified : verifySigned P authorPubkey aad content signature = .ok ()) :
    aad.Fits := by
  obtain ⟨_, _, signing, -⟩ := verifyVersion_eq_ok P ((verifySigned_eq_ok P).mp verified).2
  obtain ⟨_, canonical, -⟩ := VersionedObject.signingBytes_eq_ok signing
  obtain ⟨vaultFits, itemFits, -⟩ := AssociatedData.canonical_eq_ok canonical
  exact ⟨vaultFits, itemFits⟩

theorem verifySigned_signContent (signed : signContent P keyset aad content = .ok signature) :
    verifySigned P (keyset.verifying P) aad content signature = .ok () := by
  obtain ⟨_, signing, rfl⟩ := signVersion_eq_ok P ((signContent_eq_ok P).mp signed)
  refine (verifySigned_eq_ok P).mpr ⟨verifyingKeyFromBytes_verifyingKey P keyset.signing, ?_⟩
  simp [verifyVersion, UnlockedKeyset.verifying, signing, P.sign_length, P.verify_sign]

/-- Where signatures bind and the digest does not collide, it verifies for nothing else. -/
theorem verifySigned_signContent_inj
    (binds : VersionedObject.BoundBy P keyset.signing (.fromContent P aad content)
      (.fromContent P aad' content')) (noCollision : P.NoCollision content' content)
    (signed : signContent P keyset aad content = .ok signature)
    (verified : verifySigned P (keyset.verifying P) aad' content' signature = .ok ()) :
    aad' = aad ∧ content' = content := by
  obtain ⟨message, signing, rfl⟩ := signVersion_eq_ok P ((signContent_eq_ok P).mp signed)
  obtain ⟨message', _, signing', parsed, accepted⟩ :=
    verifyVersion_eq_ok P ((verifySigned_eq_ok P).mp verified).2
  rw [parseExpecting_headerBytes] at parsed
  cases parsed
  have sameMessage := binds message message' signing signing' accepted
  subst sameMessage
  have same := VersionedObject.signingBytes_inj signing' signing
  exact ⟨congrArg VersionedObject.aad same,
    noCollision (congrArg VersionedObject.contentDigest same)⟩

/-- Builds a signed membership manifest for an epoch. -/
def buildManifest (adminKeyset : UnlockedKeyset) (vaultId : Bytes) (keyEpoch : UInt64)
    (members : List Member) : Except VaultError MembershipManifest := do
  let manifestBlob ← canonicalMemberPayload keyEpoch members
  let signature ← signContent P adminKeyset (manifestAad vaultId keyEpoch) manifestBlob
  .ok { vaultId, keyEpoch, manifestBlob, signature, authorPubkey := adminKeyset.verifying P }

/-- Verifies a manifest against the set of the epoch before it. -/
def verifyManifest (manifest : MembershipManifest) (vaultId : Bytes)
    (prev : Option VerifiedMembers) (genesisOwner : Bytes) :
    Except VaultError VerifiedMembers :=
  if manifest.vaultId ≠ vaultId then .error .format
  else do
    verifySigned P manifest.authorPubkey (manifestAad vaultId manifest.keyEpoch)
      manifest.manifestBlob manifest.signature
    checkSuccession manifest prev genesisOwner
    let members ← parseMemberPayload manifest.keyEpoch manifest.manifestBlob
    .ok { vaultId, keyEpoch := manifest.keyEpoch, members }

def grantAad (vaultId memberEd25519Pub : Bytes) (keyEpoch : UInt64) : AssociatedData :=
  { vaultId, itemId := memberEd25519Pub, version := keyEpoch }

/-- `GRANT_DOMAIN ‖ role ‖ not_after ‖ wrapped_vk`. -/
def grantSignedContent (role : MemberRole) (notAfter : Int64) (wrappedVk : Bytes) : Bytes :=
  grantDomain ++ (role.toU8 :: beBytes 8 notAfter.toUInt64.toNat ++ wrappedVk)

/-- Verifies a grant against the verified set of its epoch. -/
def verifyGrant (grant : MembershipGrant) (vaultId : Bytes) (members : VerifiedMembers) :
    Except VaultError Unit :=
  if grant.vaultId ≠ vaultId then .error .format
  else if grant.keyEpoch ≠ members.keyEpoch then .error .epochInvalid
  else do
    verifySigned P grant.authorPubkey (grantAad vaultId grant.memberPubkey grant.keyEpoch)
      (grantSignedContent grant.role grant.notAfter grant.wrappedVk) grant.signature
    if members.isAdmin grant.authorPubkey then
      match members.roleOf grant.memberPubkey with
      | none => .error .notAMember
      | some role => if role = grant.role then .ok () else .error .authorityInvalid
    else .error .authorityInvalid

/-- The first of an epoch's candidates that verifies, otherwise the last failure. -/
def verifyCandidates (vaultId genesisOwner : Bytes) (prev : Option VerifiedMembers)
    (failure : VaultError) : List MembershipManifest → Except VaultError VerifiedMembers
  | [] => .error failure
  | manifest :: rest =>
    match verifyManifest P manifest vaultId prev genesisOwner with
    | .ok members => .ok members
    | .error e => verifyCandidates vaultId genesisOwner prev e rest

/-- Walks the candidate manifests of consecutive epochs from epoch 1. -/
def verifyChain (vaultId genesisOwner : Bytes)
    (epochs : List (Except VaultError (List MembershipManifest))) :
    Except VaultError VerifiedMembers := do
  let last ← epochs.foldlM (fun prev candidates => do
    let candidates ← candidates
    some <$> verifyCandidates P vaultId genesisOwner prev .authorityInvalid candidates) none
  match last with
  | some members => .ok members
  | none => .error .epochInvalid

/-- The stored manifest of an epoch as its candidate list. -/
def storedCandidates (s : Storage) (vaultId : Bytes) (epoch : UInt64) :
    Except VaultError (List MembershipManifest) :=
  match s.getMembershipManifest vaultId epoch with
  | .ok manifest => .ok manifest.toList
  | .error e => .error (.storage e)

/-- Re-verifies the stored chain from epoch 1 to `targetEpoch` and returns its last set. -/
def verifyChainToEpoch (s : Storage) (vaultId : Bytes) (targetEpoch : UInt64)
    (genesisOwner : Bytes) : Except VaultError VerifiedMembers :=
  if targetEpoch = 0 then .error .epochInvalid
  else verifyChain P vaultId genesisOwner
    ((range' 1 targetEpoch.toNat).map fun epoch =>
      storedCandidates s vaultId (UInt64.ofNat epoch))

/-! ## The chain as a walk -/

/-- Verification of the stored manifest of one epoch against the set before it. -/
def chainLink (s : Storage) (vaultId genesisOwner : Bytes) (prev : Option VerifiedMembers)
    (epoch : Nat) : Except VaultError VerifiedMembers := do
  let candidates ← storedCandidates s vaultId (UInt64.ofNat epoch)
  verifyCandidates P vaultId genesisOwner prev .authorityInvalid candidates

variable {P} {targetEpoch : UInt64} {s : Storage} {genesisOwner : Bytes} {members : VerifiedMembers}
  {prev : Option VerifiedMembers}

theorem verifyChainToEpoch_eq_walk (positive : targetEpoch ≠ 0) :
    verifyChainToEpoch P s vaultId targetEpoch genesisOwner = (do
        let last ← walk (chainLink P s vaultId genesisOwner) targetEpoch.toNat
        match last with
        | some members => .ok members
        | none => .error .epochInvalid) := by
  rw [← foldlM_range'_eq_walk]
  simp only [verifyChainToEpoch, positive, if_false, verifyChain, foldlM_map, chainLink,
    map_bind]

variable {vaultId : Bytes} {manifest : MembershipManifest}

theorem verifyChainToEpoch_eq_ok :
    verifyChainToEpoch P s vaultId targetEpoch genesisOwner = .ok members ↔ targetEpoch ≠ 0 ∧
        walk (chainLink P s vaultId genesisOwner) targetEpoch.toNat = .ok (some members) := by
  by_cases zero : targetEpoch = 0
  · simp [verifyChainToEpoch, zero]
  · rw [verifyChainToEpoch_eq_walk zero, bind_eq_ok]
    constructor
    · rintro ⟨last, walked, returned⟩
      cases last with
      | none => cases returned
      | some =>
        cases returned
        exact ⟨zero, walked⟩
    · rintro ⟨-, walked⟩
      exact ⟨some members, walked, rfl⟩

theorem chainLink_eq_ok (linked : chainLink P s vaultId genesisOwner prev epoch = .ok members) :
    ∃ manifest, s.getMembershipManifest vaultId (UInt64.ofNat epoch) = .ok (some manifest) ∧
      verifyManifest P manifest vaultId prev genesisOwner = .ok members := by
  obtain ⟨_, stored, verified⟩ := bind_eq_ok.mp linked
  unfold storedCandidates at stored
  split at stored
  · next manifest read =>
    cases stored
    cases manifest with
    | none => simp [verifyCandidates] at verified
    | some manifest =>
      refine ⟨manifest, read, ?_⟩
      simp only [Option.toList_some, verifyCandidates] at verified
      split at verified
      · next checked => rw [checked, verified]
      · cases verified
  · cases stored

theorem chainLink_of_stored
    (stored : s.getMembershipManifest vaultId (UInt64.ofNat epoch) = .ok (some manifest))
    (verifies : verifyManifest P manifest vaultId prev genesisOwner = .ok members) :
    chainLink P s vaultId genesisOwner prev epoch = .ok members := by
  simp only [chainLink, storedCandidates, stored, ok_bind, Option.toList_some, verifyCandidates,
    verifies]

theorem verifyManifest_eq_ok
    (verified : verifyManifest P manifest vaultId prev genesisOwner = .ok members) :
    manifest.vaultId = vaultId ∧
      verifySigned P manifest.authorPubkey (manifestAad vaultId manifest.keyEpoch)
        manifest.manifestBlob manifest.signature = .ok () ∧
      checkSuccession manifest prev genesisOwner = .ok () ∧
      members.vaultId = vaultId ∧ members.keyEpoch = manifest.keyEpoch ∧
      parseMemberPayload manifest.keyEpoch manifest.manifestBlob = .ok members.members := by
  unfold verifyManifest at verified
  split at verified
  · cases verified
  · next same =>
    obtain ⟨_, signed, rest⟩ := bind_eq_ok.mp verified
    obtain ⟨_, succeeds, rest⟩ := bind_eq_ok.mp rest
    obtain ⟨_, payload, built⟩ := bind_eq_ok.mp rest
    cases built
    exact ⟨not_not.mp same, signed, succeeds, rfl, rfl, payload⟩

section

variable (verified : verifyChainToEpoch P s vaultId targetEpoch genesisOwner = .ok members)
include verified

/-- The last link of a chain is the manifest stored for its epoch, verified against the set
before it. -/
theorem verifyChainToEpoch_link :
    ∃ prev manifest, s.getMembershipManifest vaultId targetEpoch = .ok (some manifest) ∧
      verifyManifest P manifest vaultId prev genesisOwner = .ok members := by
  obtain ⟨nonzero, walked⟩ := verifyChainToEpoch_eq_ok.mp verified
  have positive : targetEpoch.toNat ≠ 0 := fun zero => nonzero (UInt64.toNat_inj.mp (by simpa))
  obtain ⟨n, succ⟩ := Nat.exists_eq_succ_of_ne_zero positive
  rw [succ] at walked
  obtain ⟨prev, _, -, linked, same⟩ := walk_succ_eq_ok walked
  cases same
  obtain ⟨manifest, stored, checked⟩ := chainLink_eq_ok linked
  rw [← Nat.succ_eq_add_one, ← succ, UInt64.ofNat_toNat] at stored
  exact ⟨prev, manifest, stored, checked⟩

theorem verifyChainToEpoch_manifest :
    ∃ manifest, s.getMembershipManifest vaultId targetEpoch = .ok (some manifest) ∧
      members.vaultId = vaultId ∧ members.keyEpoch = manifest.keyEpoch ∧
      parseMemberPayload manifest.keyEpoch manifest.manifestBlob = .ok members.members := by
  obtain ⟨_, manifest, stored, checked⟩ := verifyChainToEpoch_link verified
  obtain ⟨-, -, -, vault, epoch, payload⟩ := verifyManifest_eq_ok checked
  exact ⟨manifest, stored, vault, epoch, payload⟩

theorem verifyChainToEpoch_fits : vaultId.length ≤ 65535 := by
  obtain ⟨_, _, -, checked⟩ := verifyChainToEpoch_link verified
  obtain ⟨-, signed, -⟩ := verifyManifest_eq_ok checked
  exact (verifySigned_fits P signed).1

end

variable {epoch : UInt64}

theorem verifyChainToEpoch_keyEpoch
    (chain : verifyChainToEpoch P s vaultId epoch anchor = .ok members) :
    members.keyEpoch = epoch := by
  obtain ⟨_, stored, -, sameEpoch, -⟩ := verifyChainToEpoch_manifest chain
  obtain ⟨n, sameN, found⟩ := Storage.getMembershipManifest_eq_ok.mp stored
  obtain ⟨_, -, rfl⟩ := map_eq_some_iff.mp found.symm
  rw [sameEpoch]
  exact sameN

/-- The chain up to an epoch only depends on the manifests stored up to that epoch. -/
theorem verifyChainToEpoch_congr (same : ∀ epoch, 1 ≤ epoch → epoch ≤ targetEpoch →
      s.getMembershipManifest vaultId epoch = s'.getMembershipManifest vaultId epoch) :
    verifyChainToEpoch P s vaultId targetEpoch genesisOwner =
      verifyChainToEpoch P s' vaultId targetEpoch genesisOwner := by
  by_cases zero : targetEpoch = 0
  · simp [verifyChainToEpoch, zero]
  · rw [verifyChainToEpoch_eq_walk zero, verifyChainToEpoch_eq_walk zero]
    have links : walk (chainLink P s vaultId genesisOwner) targetEpoch.toNat =
        walk (chainLink P s' vaultId genesisOwner) targetEpoch.toNat := by
      apply walk_congr
      intro k first within _
      have value : (UInt64.ofNat k).toNat = k :=
        UInt64.toNat_ofNat_of_lt' (lt_of_le_of_lt within targetEpoch.toNat_lt)
      have read := same (UInt64.ofNat k)
        (UInt64.le_iff_toNat_le.mpr (by rw [value]; exact first))
        (UInt64.le_iff_toNat_le.mpr (by rw [value]; exact within))
      simp only [chainLink, storedCandidates, read]
    rw [links]

end Verification

end UniSsh
