import UniSsh.Sync.Object

/-!
# The encoding of objects

Every reader takes exactly what its writer writes. A string is the encoding of what it reads as
exactly where the tombstone byte of a vault or an item is 0 or 1.
-/

namespace UniSsh

/-- The string goes on as `rest` after this encoded field. -/
def Took (field : Except SyncError Bytes) (b rest : Bytes) : Prop :=
  ∃ written, field = .ok written ∧ b = written ++ rest

/-- The string goes on as `rest` after these encoded fields. -/
def TookAll : List (Except SyncError Bytes) → Bytes → Bytes → Prop
  | [], b, rest => b = rest
  | field :: fields, b, rest => ∃ mid, Took field b mid ∧ TookAll fields mid rest

variable {α β : Type} {b rest : Bytes} {fields : List (Except SyncError Bytes)} {a : α}

@[simp] theorem took_ok : Took (.ok written) b rest ↔ b = written ++ rest := by
  simp [Took]

theorem tookAll_iff :
    TookAll fields b rest ↔
      ∃ written, fields.mapM id = .ok written ∧ b = written.flatten ++ rest := by
  induction fields generalizing b with
  | nil => simp [TookAll, pure, Except.pure]
  | cons field fields ih =>
    simp only [TookAll, Took, ih, List.mapM_cons, id]
    cases field <;> cases fields.mapM id <;> simp [pure, Except.pure]

theorem TookAll.append (took : TookAll fields b rest) (more : Bytes) :
    TookAll fields (b ++ more) (rest ++ more) := by
  rw [tookAll_iff] at took ⊢
  obtain ⟨written, wrote, rfl⟩ := took
  exact ⟨written, wrote, List.append_assoc ..⟩

/-! ## Single fields -/

namespace Reader

theorem take_eq_ok :
    take n b = .ok (taken, rest) ↔ taken.length = n ∧ b = taken ++ rest := by
  unfold take
  split
  · next short =>
    refine iff_of_false (by simp) ?_
    rintro ⟨rfl, rfl⟩
    simp at short
  · next =>
    rw [Except.ok.injEq, List.splitAt_eq, Prod.mk.injEq]
    constructor
    · rintro ⟨rfl, rfl⟩
      exact ⟨List.length_take_of_le (by omega), (List.take_append_drop n b).symm⟩
    · rintro ⟨rfl, rfl⟩
      simp

theorem number_eq_ok :
    number w b = .ok (n, rest) ↔ n < 256 ^ w ∧ b = beBytes w n ++ rest := by
  unfold number
  simp only [bind_eq_ok, Prod.exists, take_eq_ok, Except.ok.injEq, Prod.mk.injEq]
  constructor
  · rintro ⟨digits, _, ⟨rfl, rfl⟩, rfl, rfl⟩
    rw [beBytes_ofBeBytes]
    exact ⟨ofBeBytes_lt digits, rfl⟩
  · rintro ⟨fits, rfl⟩
    refine ⟨_, _, ⟨beBytes_length w n, rfl⟩, ?_, rfl⟩
    rw [ofBeBytes_beBytes, Nat.mod_eq_of_lt fits]

end Reader

namespace ReadM

/-- The reader takes what is written for the value it returns. -/
abbrev Reads (r : ReadM α) (write : α → Except SyncError Bytes) : Prop :=
  ∀ {a b rest}, r.run b = .ok (a, rest) ↔ Took (write a) b rest

theorem bind_run {f : α → ReadM β} :
    (r >>= f).run b = .ok (y, rest) ↔
      ∃ x mid, r.run b = .ok (x, mid) ∧ (f x).run mid = .ok (y, rest) := by
  simp only [StateT.run_bind, bind_eq_ok, Prod.exists]

theorem pure_run : (pure x : ReadM α).run b = .ok (a, rest) ↔ x = a ∧ b = rest := by
  change Except.ok (x, b) = .ok (a, rest) ↔ _
  simp

theorem u8_run : Reads u8 fun n => .ok [n] := by
  intro n b _
  cases b <;> simp [u8, StateT.run, Reader.u8]

theorem bytes_run : Reads bytes putBytes := by
  intro field b rest
  have took : Took (putBytes field) b rest ↔
      field.length < 2 ^ 32 ∧ b = lenPrefixed 4 field ++ rest := by
    unfold putBytes
    split
    · next => simp [Took]; omega
    · next => simp; omega
  rw [took]
  change Reader.bytes b = _ ↔ _
  unfold Reader.bytes
  simp only [bind_eq_ok, Prod.exists, Reader.number_eq_ok, Reader.take_eq_ok]
  constructor
  · rintro ⟨_, _, ⟨fits, rfl⟩, rfl, rfl⟩
    exact ⟨fits, (List.append_assoc ..).symm⟩
  · rintro ⟨fits, rfl⟩
    exact ⟨_, _, ⟨fits, List.append_assoc ..⟩, rfl, rfl⟩

/-- A number that is read into a fixed-width type. -/
theorem number_run {ofNat : Nat → α} {toNat : α → Nat}
    (toNat_ofNat : ∀ n < 256 ^ w, toNat (ofNat n) = n) (ofNat_toNat : ∀ a, ofNat (toNat a) = a)
    (fits : ∀ a, toNat a < 256 ^ w) :
    Reads (do return ofNat (← (Reader.number w : ReadM Nat))) fun a =>
      .ok (beBytes w (toNat a)) := by
  intro a b _
  simp only [bind_run, pure_run, took_ok]
  change (∃ n mid, Reader.number w b = .ok (n, mid) ∧ _) ↔ _
  simp only [Reader.number_eq_ok]
  constructor
  · rintro ⟨n, _, ⟨inRange, rfl⟩, rfl, rfl⟩
    rw [toNat_ofNat n inRange]
  · rintro rfl
    exact ⟨_, _, ⟨fits a, rfl⟩, ofNat_toNat a, rfl⟩

theorem u32_run : Reads u32 fun n => .ok (beBytes 4 n.toNat) :=
  number_run (fun _ => UInt32.toNat_ofNat_of_lt') (fun _ => UInt32.ofNat_toNat) UInt32.toNat_lt

theorem u64_run : Reads u64 fun n => .ok (beBytes 8 n.toNat) :=
  number_run (fun _ => UInt64.toNat_ofNat_of_lt') (fun _ => UInt64.ofNat_toNat) UInt64.toNat_lt

theorem i64_run : Reads i64 fun n => .ok (beBytes 8 n.toUInt64.toNat) := by
  intro n b _
  unfold i64
  simp only [bind_run, pure_run, u64_run]
  constructor
  · rintro ⟨m, _, took, rfl, rfl⟩
    exact took
  · intro took
    exact ⟨_, _, took, rfl, rfl⟩

/-- A byte that is read into an enumeration. -/
theorem enum_run {decode : UInt8 → ReadM α} {encode : α → UInt8}
    (decodes : ∀ a, decode (encode a) = pure a)
    (only : ∀ n a mid rest, (decode n).run mid = .ok (a, rest) → n = encode a) :
    Reads (u8 >>= decode) fun a => .ok [encode a] := by
  intro a b rest
  simp only [bind_run, u8_run]
  constructor
  · rintro ⟨n, mid, took, ran⟩
    obtain rfl := only n a mid rest ran
    rw [decodes] at ran
    cases ran
    exact took
  · intro took
    exact ⟨_, _, took, by rw [decodes]; rfl⟩

theorem syncTarget_run : Reads syncTarget fun target => .ok [syncTargetU8 target] := by
  refine enum_run (fun target => by cases target <;> rfl) fun n target mid rest ran => ?_
  split at ran <;> cases ran <;> rfl

theorem cachePolicy_run : Reads cachePolicy fun policy => .ok [cachePolicyU8 policy] := by
  refine enum_run (fun policy => by cases policy <;> rfl) fun n policy mid rest ran => ?_
  split at ran <;> cases ran <;> rfl

theorem role_run : Reads role fun role => .ok [role.toU8] := by
  refine enum_run (fun role => by cases role <;> rfl) fun n role mid rest ran => ?_
  split at ran
  · next isRole =>
    cases ran
    unfold MemberRole.fromU8 at isRole
    split_ifs at isRole <;> cases isRole <;> assumption
  · cases ran

end ReadM

/-! ## Objects -/

namespace SyncObject

open ReadM List

/-- The object as it arrives, without the local fields. -/
def received : SyncObject → SyncObject
  | vault v => vault { v with syncTenant := [] }
  | item i => item { i with createdAt := 0, updatedAt := 0 }
  | obj => obj

/-- The tombstone flag, of the kinds that have one. -/
def deleted : SyncObject → Bool
  | vault v => v.tombstone
  | item i => i.tombstone
  | _ => false

/-- The encoded fields with this byte for the tombstone flag. -/
def flaggedFields (flag : UInt8) : SyncObject → List (Except SyncError Bytes)
  | vault v => (vault v).encodedFields.set 5 (.ok [flag])
  | item i => (item i).encodedFields.set 6 (.ok [flag])
  | obj => obj.encodedFields

/-- The string goes on as `rest` after the fields of an object as it arrives. -/
def Spells (obj : SyncObject) (b rest : Bytes) : Prop :=
  obj.received = obj ∧ ∃ flag : UInt8, obj.deleted = decide (flag ≠ 0) ∧
    TookAll (obj.flaggedFields flag) b rest

/-- The reader takes the fields of an object. -/
abbrev ReadsAs (r : ReadM α) (object : α → SyncObject) : Prop :=
  ∀ {a b rest}, r.run b = .ok (a, rest) ↔ (object a).Spells b rest

theorem readVault_reads : ReadsAs readVault vault := by
  intro v b _
  unfold readVault Spells
  simp only [bind_run, pure_run, bytes_run, u64_run, u8_run, syncTarget_run, cachePolicy_run,
    received, deleted, flaggedFields, encodedFields, TookAll, List.set]
  cases v
  grind

theorem readItem_reads : ReadsAs readItem item := by
  intro i b _
  unfold readItem Spells
  simp only [bind_run, pure_run, bytes_run, u32_run, u64_run, u8_run, received, deleted,
    flaggedFields, encodedFields, TookAll, List.set]
  cases i
  grind

variable {obj : SyncObject}

/-- An object with no flag and no local field. -/
theorem spells_iff (plain : obj.received = obj) (live : obj.deleted = false)
    (fields : ∀ flag, obj.flaggedFields flag = obj.encodedFields) :
    obj.Spells b rest ↔ TookAll obj.encodedFields b rest := by
  simp only [Spells, plain, live, fields, true_and]
  exact ⟨fun ⟨_, _, took⟩ => took, fun took => ⟨0, rfl, took⟩⟩

theorem readManifest_reads : ReadsAs readManifest membershipManifest := by
  intro m b _
  rw [spells_iff rfl rfl fun _ => rfl]
  unfold readManifest
  simp only [bind_run, pure_run, bytes_run, u64_run, encodedFields, TookAll]
  cases m
  grind

theorem readGrant_reads : ReadsAs readGrant membershipGrant := by
  intro g b _
  rw [spells_iff rfl rfl fun _ => rfl]
  unfold readGrant
  simp only [bind_run, pure_run, bytes_run, u64_run, i64_run, role_run, encodedFields, TookAll]
  cases g
  grind

theorem readAudit_reads : ReadsAs readAudit audit := by
  intro a b _
  rw [spells_iff rfl rfl fun _ => rfl]
  unfold readAudit
  simp only [bind_run, pure_run, bytes_run, encodedFields, TookAll]
  cases a
  grind

theorem readKeyset_reads : ReadsAs bytes keyset := by
  intro k b _
  rw [spells_iff rfl rfl fun _ => rfl]
  simp only [bytes_run, encodedFields, TookAll, exists_eq_right]

theorem readAccountState_reads : ReadsAs readAccountState accountState := by
  intro a b _
  rw [spells_iff rfl rfl fun _ => rfl]
  unfold readAccountState
  simp only [bind_run, pure_run, bytes_run, u64_run, encodedFields, TookAll]
  cases a
  grind

theorem readTagged_run :
    readTagged.run b = .ok (obj, rest) ↔ ∃ mid, b = obj.tag :: mid ∧ obj.Spells mid rest := by
  unfold readTagged
  simp only [bind_run, u8_run, took_ok, singleton_append]
  constructor
  · rintro ⟨n, mid, rfl, ran⟩
    refine ⟨mid, ?_⟩
    split at ran
    case h_8 => cases ran
    all_goals
      obtain ⟨_, _, read, returned⟩ := bind_run.mp ran
      cases returned
    · exact ⟨rfl, readVault_reads.mp read⟩
    · exact ⟨rfl, readItem_reads.mp read⟩
    · exact ⟨rfl, readManifest_reads.mp read⟩
    · exact ⟨rfl, readGrant_reads.mp read⟩
    · exact ⟨rfl, readAudit_reads.mp read⟩
    · exact ⟨rfl, readKeyset_reads.mp read⟩
    · exact ⟨rfl, readAccountState_reads.mp read⟩
  · rintro ⟨mid, rfl, spells⟩
    refine ⟨obj.tag, mid, rfl, ?_⟩
    cases obj with
    | vault v => exact bind_run.mpr ⟨v, rest, readVault_reads.mpr spells, rfl⟩
    | item i => exact bind_run.mpr ⟨i, rest, readItem_reads.mpr spells, rfl⟩
    | membershipManifest m => exact bind_run.mpr ⟨m, rest, readManifest_reads.mpr spells, rfl⟩
    | membershipGrant g => exact bind_run.mpr ⟨g, rest, readGrant_reads.mpr spells, rfl⟩
    | audit a => exact bind_run.mpr ⟨a, rest, readAudit_reads.mpr spells, rfl⟩
    | keyset k => exact bind_run.mpr ⟨k, rest, readKeyset_reads.mpr spells, rfl⟩
    | accountState a => exact bind_run.mpr ⟨a, rest, readAccountState_reads.mpr spells, rfl⟩

theorem fromBytes_eq_ok : fromBytes b = .ok obj ↔ readTagged.run b = .ok (obj, []) := by
  unfold fromBytes
  rw [bind_eq_ok]
  constructor
  · rintro ⟨⟨_, left⟩, ran, done⟩
    cases left <;> cases done
    exact ran
  · intro ran
    exact ⟨_, ran, rfl⟩

theorem readTagged_append (ran : readTagged.run b = .ok (obj, rest)) (more : Bytes) :
    readTagged.run (b ++ more) = .ok (obj, rest ++ more) := by
  obtain ⟨_, rfl, plain, flag, isFlag, took⟩ := readTagged_run.mp ran
  exact readTagged_run.mpr ⟨_, rfl, plain, flag, isFlag, took.append more⟩

/-! ## Whole encodings -/

/-- The encoding with this byte for the tombstone flag. -/
def toBytesWith (flag : UInt8) (obj : SyncObject) : Except SyncError Bytes := do
  let fields ← (obj.flaggedFields flag).mapM id
  .ok (obj.tag :: fields.flatten)

theorem toBytesWith_eq_ok :
    obj.toBytesWith flag = .ok b ↔
      ∃ mid, b = obj.tag :: mid ∧ TookAll (obj.flaggedFields flag) mid [] := by
  unfold toBytesWith
  simp only [bind_eq_ok, tookAll_iff, Except.ok.injEq, append_nil]
  constructor
  · rintro ⟨fields, wrote, rfl⟩
    exact ⟨_, rfl, fields, wrote, rfl⟩
  · rintro ⟨_, rfl, fields, wrote, rfl⟩
    exact ⟨fields, wrote, rfl⟩

theorem toBytes_eq (obj : SyncObject) : obj.toBytes = obj.toBytesWith (boolU8 obj.deleted) := by
  cases obj <;> rfl

/-- The fields of variable length. -/
def byteFields : SyncObject → List Bytes
  | vault v => [v.vaultId, v.nameBlob, v.wrappedVk, v.signature, v.authorPubkey]
  | item i =>
    [i.vaultId, i.itemId, i.contentBlob, i.wrappedItemKey, i.signature, i.authorPubkey]
  | membershipManifest m => [m.vaultId, m.manifestBlob, m.signature, m.authorPubkey]
  | membershipGrant g => [g.vaultId, g.memberPubkey, g.wrappedVk, g.signature, g.authorPubkey]
  | audit a => [a.vaultId, a.entryBlob, a.signature, a.authorPubkey]
  | keyset b => [b]
  | accountState a => [a.payload, a.signature, a.authorPubkey]

theorem toBytes_of_short (short : ∀ field ∈ obj.byteFields, field.length < 2 ^ 32) :
    ∃ b, obj.toBytes = .ok b ∧ b.length = obj.encodedLen := by
  have written {field : Bytes} (fits : field.length < 2 ^ 32) :
      putBytes field = .ok (lenPrefixed 4 field) := if_neg (Nat.not_le.mpr fits)
  unfold toBytes encodedLen
  cases obj
  all_goals
    simp only [byteFields, forall_mem_cons] at short
    simp only [encodedFields, written, short, mapM_cons, mapM_nil, id, ok_bind, pure,
      Except.pure]
    refine ⟨_, rfl, ?_⟩
    simp [prefixed]
    omega

/-- An encodable object reads back without its local fields, and no other string with its start
does. -/
theorem toBytes_fromBytes (obj : SyncObject)
    (short : ∀ field ∈ obj.byteFields, field.length < 2 ^ 32) :
    ∃ b, obj.toBytes = .ok b ∧ b.length = obj.encodedLen ∧ fromBytes b = .ok obj.received ∧
      ∀ other, other ≠ b → (other <+: b ∨ b <+: other) → ∀ read, fromBytes other ≠ .ok read := by
  obtain ⟨b, wrote, length⟩ := toBytes_of_short short
  have ran : readTagged.run b = .ok (obj.received, []) := by
    obtain ⟨mid, rfl, took⟩ := toBytesWith_eq_ok.mp (toBytes_eq obj ▸ wrote)
    have same : obj.received.flaggedFields (boolU8 obj.deleted) =
        obj.flaggedFields (boolU8 obj.deleted) := by cases obj <;> rfl
    refine readTagged_run.mpr ⟨mid, by cases obj <;> rfl, by cases obj <;> rfl,
      boolU8 obj.deleted, ?_, same ▸ took⟩
    have sameFlag : obj.received.deleted = obj.deleted := by cases obj <;> rfl
    rw [sameFlag]
    cases obj.deleted <;> rfl
  refine ⟨b, wrote, length, fromBytes_eq_ok.mpr ran, ?_⟩
  rintro _ differs (⟨more, rfl⟩ | ⟨more, rfl⟩) _ accepted
  · have longer := readTagged_append (fromBytes_eq_ok.mp accepted) more
    rw [ran] at longer
    cases longer
    exact differs (append_nil _).symm
  · have longer := readTagged_append ran more
    rw [fromBytes_eq_ok.mp accepted] at longer
    cases longer
    exact differs (append_nil _)

/-- A deleted item with local times. -/
def Sample.tombstone (createdAt updatedAt : Int64) : ItemRecord where
  vaultId := [1]
  itemId := [2]
  itemType := 3
  contentBlob := []
  wrappedItemKey := []
  version := 4
  tombstone := true
  signature := [5, 6]
  authorPubkey := [7]
  createdAt := createdAt
  updatedAt := updatedAt
  keyEpoch := 8

/-- An item with all its fields. -/
theorem toBytes_fromBytes_item :
    ∃ b, (item (Sample.tombstone 9 10)).toBytes = .ok b ∧ b.length = 51 ∧
      fromBytes b = .ok (item (Sample.tombstone 0 0)) := by
  obtain ⟨b, wrote, length, read, -⟩ := toBytes_fromBytes (item (Sample.tombstone 9 10)) (by decide)
  exact ⟨b, wrote, length, read⟩

/-! ## The tombstone byte -/

/-- What follows a length-prefixed field at the front of a string. -/
def skipField (b : Bytes) : Bytes := b.drop (4 + ofBeBytes (b.take 4))

/-- The tombstone byte of a vault or an item, found by the lengths of the fields before it. -/
def tombstoneByte : Bytes → Option UInt8
  | 1 :: b => ((skipField (skipField ((skipField b).drop 1))).drop 8).head?
  | 2 :: b => ((skipField (skipField ((skipField (skipField b)).drop 4))).drop 8).head?
  | _ => none

theorem skipField_of_took (took : TookAll (putBytes field :: fields) b rest) :
    TookAll fields (skipField b) rest := by
  obtain ⟨mid, ⟨written, wrote, rfl⟩, took⟩ := took
  unfold putBytes at wrote
  split at wrote
  · cases wrote
  · next short =>
    cases wrote
    have read : ofBeBytes (beBytes 4 field.length) = field.length := by
      rw [ofBeBytes_beBytes, Nat.mod_eq_of_lt (by omega)]
    rw [skipField, lenPrefixed, append_assoc, take_left' (beBytes_length ..), read, ← drop_drop,
      drop_left' (beBytes_length ..), drop_left]
    exact took

theorem drop_of_took (took : TookAll (.ok written :: fields) b rest) :
    TookAll fields (b.drop written.length) rest := by
  obtain ⟨mid, wrote, took⟩ := took
  rw [took_ok.mp wrote, drop_left]
  exact took

/-- The byte a reader takes for the flag, of the kinds that have one. -/
theorem tombstoneByte_of_took (took : TookAll (obj.flaggedFields flag) b []) :
    tombstoneByte (obj.tag :: b) = some flag ∨
      tombstoneByte (obj.tag :: b) = none ∧ ∀ other, obj.flaggedFields other = obj.encodedFields := by
  have head {fields} {b : Bytes} (took : TookAll (.ok [flag] :: fields) b []) :
      b.head? = some flag := by
    obtain ⟨mid, wrote, -⟩ := took
    rw [took_ok.mp wrote]
    rfl
  cases obj with
  | vault v =>
    left
    have name := drop_of_took (skipField_of_took took)
    have version := drop_of_took (skipField_of_took (skipField_of_took name))
    rw [beBytes_length] at version
    exact head version
  | item i =>
    left
    have type := drop_of_took (skipField_of_took (skipField_of_took took))
    rw [beBytes_length] at type
    have version := drop_of_took (skipField_of_took (skipField_of_took type))
    rw [beBytes_length] at version
    exact head version
  | _ => exact .inr ⟨rfl, fun _ => rfl⟩

/-- A string is the encoding of what it reads as exactly when its tombstone byte is 0 or 1. -/
theorem fromBytes_toBytes {b : Bytes} {obj : SyncObject} (read : fromBytes b = .ok obj) :
    obj.toBytes = .ok b ↔ ∀ flag, tombstoneByte b = some flag → flag = 0 ∨ flag = 1 := by
  rw [toBytes_eq]
  constructor
  · intro wrote flag isFlag
    obtain ⟨mid, rfl, took⟩ := toBytesWith_eq_ok.mp wrote
    rcases tombstoneByte_of_took took with found | ⟨none, -⟩
    · cases isFlag.symm.trans found
      cases obj.deleted
      · exact .inl rfl
      · exact .inr rfl
    · cases isFlag.symm.trans none
  · intro canonical
    obtain ⟨mid, rfl, -, flag, isFlag, took⟩ := readTagged_run.mp (fromBytes_eq_ok.mp read)
    rw [toBytesWith_eq_ok]
    refine ⟨mid, rfl, ?_⟩
    rcases tombstoneByte_of_took took with found | ⟨-, same⟩
    · have flagIs : boolU8 obj.deleted = flag := by
        rw [isFlag]
        rcases canonical flag found with rfl | rfl <;> rfl
      rwa [flagIs]
    · rwa [same] at took ⊢

/-- An empty vault record with this tombstone byte. -/
def Sample.flagged (flag : UInt8) : Bytes :=
  1 :: (replicate 21 0 ++ flag :: replicate 17 0)

/-- A tombstone byte of 2 reads as deleted, and is written as 1. -/
theorem tombstone_two_reads :
    ∃ obj, fromBytes (Sample.flagged 2) = .ok obj ∧ obj.toBytes = .ok (Sample.flagged 1) ∧
      obj.toBytes ≠ .ok (Sample.flagged 2) := by
  refine ⟨_, rfl, rfl, ?_⟩
  decide

/-- A deleted vault with the byte 1. -/
theorem fromBytes_toBytes_deleted :
    ∃ obj, obj.deleted = true ∧ fromBytes (Sample.flagged 1) = .ok obj ∧
      obj.toBytes = .ok (Sample.flagged 1) := by
  have isFlag : tombstoneByte (Sample.flagged 1) = some 1 := by decide
  refine ⟨_, ?_, rfl, (fromBytes_toBytes rfl).mpr fun flag found => ?_⟩
  · rfl
  · cases isFlag.symm.trans found
    exact .inr rfl

end SyncObject

end UniSsh
