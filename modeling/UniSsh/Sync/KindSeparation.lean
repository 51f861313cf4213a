import UniSsh.Sync.SignedFields

/-!
# Signatures across record kinds

Vault records, manifests and audit entries put a marker in the `item_id` slot, an item its id and
a grant its member's key. Nothing keeps an id or a key from being a marker, or each other.
-/

namespace UniSsh

variable {P : Primitives}

/-- The associated data and the content an object's signature is made over. -/
def SyncObject.signedAs : SyncObject → Option (AssociatedData × Bytes)
  | .vault v => some (vaultRecordAad v.vaultId v.version, vaultSignedContent v.wrappedVk v.nameBlob)
  | .item i => some (itemAad i.vaultId i.itemId i.version, i.contentBlob)
  | .membershipManifest m => some (manifestAad m.vaultId m.keyEpoch, m.manifestBlob)
  | .membershipGrant g => some (grantAad g.vaultId g.memberPubkey g.keyEpoch,
      grantSignedContent g.role g.notAfter g.wrappedVk)
  | .audit a => some (auditAad a.vaultId, a.entryBlob)
  | .keyset _ => none
  | .accountState _ => none

/-- The first's own bytes are the second's marker or bytes; vault, version and content coincide. -/
def Collides : SyncObject → SyncObject → Prop
  | .item i, .vault v => i.itemId = ascii "__vault__" ∧ i.vaultId = v.vaultId ∧
      i.version = v.version ∧ i.contentBlob = vaultSignedContent v.wrappedVk v.nameBlob
  | .item i, .membershipManifest m => i.itemId = manifestAadMarker ∧ i.vaultId = m.vaultId ∧
      i.version = m.keyEpoch ∧ i.contentBlob = m.manifestBlob
  | .item i, .membershipGrant g => i.itemId = g.memberPubkey ∧ i.vaultId = g.vaultId ∧
      i.version = g.keyEpoch ∧ i.contentBlob = grantSignedContent g.role g.notAfter g.wrappedVk
  | .item i, .audit a => i.itemId = ascii "__audit__" ∧ i.vaultId = a.vaultId ∧
      i.version = 0 ∧ i.contentBlob = a.entryBlob
  | .membershipGrant g, .vault v => g.memberPubkey = ascii "__vault__" ∧ g.vaultId = v.vaultId ∧
      g.keyEpoch = v.version ∧ grantSignedContent g.role g.notAfter g.wrappedVk =
        vaultSignedContent v.wrappedVk v.nameBlob
  | .membershipGrant g, .membershipManifest m => g.memberPubkey = manifestAadMarker ∧
      g.vaultId = m.vaultId ∧ g.keyEpoch = m.keyEpoch ∧
      grantSignedContent g.role g.notAfter g.wrappedVk = m.manifestBlob
  | .membershipGrant g, .audit a => g.memberPubkey = ascii "__audit__" ∧ g.vaultId = a.vaultId ∧
      g.keyEpoch = 0 ∧ grantSignedContent g.role g.notAfter g.wrappedVk = a.entryBlob
  | _, _ => False

def Confusable (a b : SyncObject) : Prop := Collides a b ∨ Collides b a

variable {a b : SyncObject}

theorem Collides.signedAs_eq (collides : Collides a b) : a.signedAs = b.signedAs := by
  unfold Collides at collides
  split at collides
  all_goals
    first
    | exact collides.elim
    | obtain ⟨slot, vault, version, content⟩ := collides
      simp only [SyncObject.signedAs, itemAad, grantAad, vaultRecordAad, manifestAad, auditAad,
        slot, vault, version, content]

/-- The slot of the associated data an object is signed with, where its kind fixes it. -/
def SyncObject.marker : SyncObject → Option Bytes
  | .vault _ => some (ascii "__vault__")
  | .membershipManifest _ => some manifestAadMarker
  | .audit _ => some (ascii "__audit__")
  | _ => none

variable {slot : Bytes}

theorem SyncObject.signedAs_marker {obj : SyncObject} (signed : obj.signedAs = some (aad, content))
    (marked : obj.marker = some slot) :
    aad.itemId = slot := by
  cases obj with
  | vault =>
    cases signed
    exact Option.some.inj marked
  | membershipManifest =>
    cases signed
    exact Option.some.inj marked
  | audit =>
    cases signed
    exact Option.some.inj marked
  | _ => cases marked

/-- The markers tell their kinds apart. -/
theorem SyncObject.tag_eq_of_marker (first : a.marker = some slot) (second : b.marker = some slot) :
    a.tag = b.tag := by
  have vaultManifest : ascii "__vault__" ≠ manifestAadMarker := by decide
  have vaultAudit : ascii "__vault__" ≠ ascii "__audit__" := by decide
  have manifestAudit : manifestAadMarker ≠ ascii "__audit__" := by decide
  have same := first.trans second.symm
  cases a with
  | vault =>
    cases b with
    | vault => rfl
    | membershipManifest => exact (vaultManifest (Option.some.inj same)).elim
    | audit => exact (vaultAudit (Option.some.inj same)).elim
    | _ => cases second
  | membershipManifest =>
    cases b with
    | vault => exact (vaultManifest (Option.some.inj same).symm).elim
    | membershipManifest => rfl
    | audit => exact (manifestAudit (Option.some.inj same)).elim
    | _ => cases second
  | audit =>
    cases b with
    | vault => exact (vaultAudit (Option.some.inj same).symm).elim
    | membershipManifest => exact (manifestAudit (Option.some.inj same).symm).elim
    | audit => rfl
    | _ => cases second
  | _ => cases first

/-- An item signed over the same data as an object of another kind collides with it. -/
theorem item_collides (kinds : (SyncObject.item i).tag ≠ b.tag)
    (same : (SyncObject.item i).signedAs = b.signedAs) : Collides (.item i) b := by
  cases b with
  | item => exact (kinds rfl).elim
  | keyset => cases same
  | accountState => cases same
  | _ =>
    obtain ⟨identity, content⟩ := Prod.mk.inj (Option.some.inj same)
    exact ⟨congrArg AssociatedData.itemId identity, congrArg AssociatedData.vaultId identity,
      congrArg AssociatedData.version identity, content⟩

/-- So does a grant, with an object of a kind other than item. -/
theorem grant_collides (kinds : (SyncObject.membershipGrant g).tag ≠ b.tag)
    (notItem : ∀ i, b ≠ .item i) (same : (SyncObject.membershipGrant g).signedAs = b.signedAs) :
    Collides (.membershipGrant g) b := by
  cases b with
  | item i => exact (notItem i rfl).elim
  | membershipGrant => exact (kinds rfl).elim
  | keyset => cases same
  | accountState => cases same
  | _ =>
    obtain ⟨identity, content⟩ := Prod.mk.inj (Option.some.inj same)
    exact ⟨congrArg AssociatedData.itemId identity, congrArg AssociatedData.vaultId identity,
      congrArg AssociatedData.version identity, content⟩

/-- Objects of different kinds are signed over the same data exactly when they are confusable. -/
theorem signedAs_eq_iff (kinds : a.tag ≠ b.tag) (signed : a.signedAs = some form) :
    a.signedAs = b.signedAs ↔ Confusable a b := by
  constructor
  · intro same
    have signed' : b.signedAs = some form := same.symm.trans signed
    -- One of the two has no marker: markers of different kinds differ.
    have free : a.marker = none ∨ b.marker = none := by
      by_contra marked
      rw [not_or] at marked
      obtain ⟨slot, first⟩ := Option.ne_none_iff_exists'.mp marked.1
      obtain ⟨slot', second⟩ := Option.ne_none_iff_exists'.mp marked.2
      have slots : slot = slot' := (SyncObject.signedAs_marker signed first).symm.trans
          (SyncObject.signedAs_marker signed' second)
      subst slots
      exact kinds (SyncObject.tag_eq_of_marker first second)
    by_cases itemA : ∃ i, a = .item i
    · obtain ⟨i, rfl⟩ := itemA
      exact .inl (item_collides kinds same)
    · by_cases itemB : ∃ i, b = .item i
      · obtain ⟨i, rfl⟩ := itemB
        exact .inr (item_collides kinds.symm same.symm)
      · have grant : ∀ obj form, obj.marker = none → SyncObject.signedAs obj = some form →
            (∀ i, obj ≠ .item i) → ∃ g, obj = .membershipGrant g := by
          intro obj form unmarked hasForm notItem
          cases obj with
          | membershipGrant g => exact ⟨g, rfl⟩
          | item i => exact (notItem i rfl).elim
          | keyset => cases hasForm
          | accountState => cases hasForm
          | _ => cases unmarked
        rcases free with unmarked | unmarked
        · obtain ⟨g, rfl⟩ := grant a form unmarked signed fun i is => itemA ⟨i, is⟩
          exact .inl (grant_collides kinds (fun i is => itemB ⟨i, is⟩) same)
        · obtain ⟨g, rfl⟩ := grant b form unmarked signed' fun i is => itemB ⟨i, is⟩
          exact .inr (grant_collides kinds.symm (fun i is => itemA ⟨i, is⟩) same.symm)
  · rintro (collides | collides)
    · exact collides.signedAs_eq
    · exact collides.signedAs_eq.symm

/-- Signed bytes and signatures of different kinds are apart exactly when not confusable. -/
theorem kinds_separated_iff {secret message message' : Bytes} {a b : SyncObject}
    {aad aad' : AssociatedData} {content content' : Bytes} (kinds : a.tag ≠ b.tag)
    (signed : a.signedAs = some (aad, content)) (signed' : b.signedAs = some (aad', content'))
    (bytes : (VersionedObject.fromContent P aad content).signingBytes = .ok message)
    (bytes' : (VersionedObject.fromContent P aad' content').signingBytes = .ok message')
    (noCollision : P.NoCollision content content')
    (binds : P.SignatureBinds secret message message') :
    (message ≠ message' ∧
      P.verifyStrict (P.verifyingKey secret) message' (P.sign secret message) = false) ↔
      ¬ Confusable a b := by
  rw [← signedAs_eq_iff kinds signed]
  constructor
  · rintro ⟨differ, -⟩ same
    rw [signed, signed'] at same
    obtain ⟨rfl, rfl⟩ := Prod.mk.inj (Option.some.inj same)
    exact differ (Except.ok.inj (bytes.symm.trans bytes'))
  · intro apart
    have differ : message ≠ message' := by
      rintro rfl
      have objects := VersionedObject.signingBytes_inj bytes bytes'
      have identity : aad = aad' := congrArg VersionedObject.aad objects
      have contents : content = content' :=
        noCollision (congrArg VersionedObject.contentDigest objects)
      exact apart (by rw [signed, signed', identity, contents])
    refine ⟨differ, ?_⟩
    rw [Bool.eq_false_iff]
    intro accepted
    exact differ (binds accepted).symm

namespace Sample

def firstManifest : MembershipManifest := manifest 1 [{ ed25519Pub := ownerKey, role := .admin }]

/-- The owner's manifest under the id of its marker, as an item with the manifest's signature. -/
def replayedManifest : ItemRecord :=
  { item owner manifestAadMarker firstManifest.manifestBlob 1 0 with
    signature := firstManifest.signature }

end Sample

open Sample

/-- The owner's genuine manifest is applied as an item: both are signed over the same bytes. -/
theorem manifest_replayed_as_item :
    let signingBytes (obj : SyncObject) := obj.signedAs.map fun form =>
      (VersionedObject.fromContent .transparent form.1 form.2).signingBytes
    (verifyManifest .transparent firstManifest vaultId none ownerKey).isOk = true ∧
      (SyncObject.membershipManifest firstManifest).tag ≠ (SyncObject.item replayedManifest).tag ∧
      signingBytes (.membershipManifest firstManifest) = signingBytes (.item replayedManifest) ∧
      replayedManifest.signature = firstManifest.signature ∧
      valueOf ((processObject .transparent context
        (.item replayedManifest)).run {}) = .ok .applied := by
  refine ⟨?_, ?_, ?_, rfl, ?_⟩
  all_goals decide +kernel

/-- An item and a vault record of the owner that are kept apart. -/
theorem kinds_separated_item_vault :
    ∃ message message', (message ≠ message' ∧ Primitives.transparent.verifyStrict ownerKey message'
          (Primitives.transparent.sign owner.signing message) = false) ∧
      ¬ Confusable (.item liveItem) (.vault liveVault) := by
  obtain ⟨message, bytes⟩ : ∃ message, (VersionedObject.fromContent .transparent
      (itemAad vaultId [5] 1) [4]).signingBytes = .ok message := ⟨_, rfl⟩
  obtain ⟨message', bytes'⟩ : ∃ message', (VersionedObject.fromContent .transparent
      (vaultRecordAad vaultId 1) (vaultSignedContent [] [8])).signingBytes = .ok message' :=
    ⟨_, rfl⟩
  have binds : Primitives.transparent.SignatureBinds owner.signing message message' := by
    cases bytes
    cases bytes'
    unfold Primitives.SignatureBinds
    decide +kernel
  have apart : ¬ Confusable (.item liveItem) (.vault liveVault) := by
    rintro (collides | impossible)
    · exact absurd collides.1 (by decide)
    · exact impossible
  have noCollision : Primitives.transparent.NoCollision [4] (vaultSignedContent [] [8]) := by
    unfold Primitives.NoCollision
    decide
  exact ⟨message, message',
    (kinds_separated_iff (a := .item liveItem) (b := .vault liveVault) (by decide) rfl
      rfl bytes bytes' noCollision binds).mpr apart, apart⟩

end UniSsh
