import UniSsh.Server.Acl
import UniSsh.Server.Storable

/-!
# Pushes are stored once

Each query and each transaction of a call is one step. An idempotency key is recorded by the
transaction that stores its objects; another push with that key stores nothing and is answered
from the record, unless it found the key free and its own objects fail.
-/

namespace UniSsh.Server

/-! ## Growth -/

/-- Owners, recorded keys, the counter and the log below it stay, but for pruned account states. -/
structure Db.Later (db db' : Db) : Prop where
  owners : db.OwnersKept db'
  keys : Table.Grows Eq db.idempotencyKeys db'.idempotencyKeys
  next : db.nextSeq ≤ db'.nextSeq
  old : ∀ (seq : Nat) row, seq ≤ db.nextSeq → db'.objects[seq]? = some row →
    db.objects[seq]? = some row
  kept : ∀ (seq : Nat) row, db.objects[seq]? = some row → row.objectTag ≠ 7 →
    db'.objects[seq]? = some row

instance : Std.Refl (@Eq IdempotencyRow) := ⟨fun _ => rfl⟩
instance : IsTrans IdempotencyRow Eq := ⟨fun _ _ _ => Eq.trans⟩

namespace Db.Later

theorem refl (db : Db) : db.Later db :=
  ⟨fun _ _ found => found, .refl _, Nat.le_refl _, fun _ _ _ found => found,
    fun _ _ found _ => found⟩

theorem trans {db mid db' : Db} (first : db.Later mid) (second : mid.Later db') : db.Later db' where
  owners := fun vaultId owner found => second.owners _ _ (first.owners vaultId owner found)
  keys := first.keys.trans second.keys
  next := Nat.le_trans first.next second.next
  old := fun seq row below found =>
    first.old seq row below (second.old seq row (Nat.le_trans below first.next) found)
  kept := fun seq row found other => second.kept seq row (first.kept seq row found other) other

instance : Std.Refl Db.Later := ⟨refl⟩
instance : IsTrans Db Db.Later := ⟨fun _ _ _ => trans⟩

end Db.Later

variable {db db' : Db} {items : List PushObj}

theorem Committed.later (committed : Committed db items db') (owners : db.OwnersKept db')
    (keys : Table.Grows Eq db.idempotencyKeys db'.idempotencyKeys) :
    db.Later db' where
  owners := owners
  keys := keys
  next := committed.next ▸ Nat.le_add_right _ _
  old := fun seq row below found => committed.log.old seq row found (Nat.lt_succ_of_le below)
  kept := committed.log.kept

/-- The objects were stored under these consecutive numbers, in this order. -/
def Db.Holds (db : Db) (seqs : List Nat) (items : List PushObj) : Prop :=
  ∃ first, seqs = List.range' first items.length ∧ first + items.length ≤ db.nextSeq + 1 ∧
    ∀ (i : Nat) it, items[i]? = some it →
      (∀ row, db.objects[first + i]? = some row →
        ∃ now, objectRow it.parsed it.bytes now = .ok row) ∧
      (it.parsed.tagU8 ≠ 7 → ∃ row, db.objects[first + i]? = some row)

variable {seqs : List Nat} {idem : Option Bytes} {now : Int64} {revokeEpoch : Option Int}

theorem Db.Holds.later (holds : db.Holds seqs items) (later : db.Later db') :
    db'.Holds seqs items := by
  obtain ⟨first, isSeqs, within, stored⟩ := holds
  refine ⟨first, isSeqs, Nat.le_trans within (Nat.succ_le_succ later.next), ?_⟩
  intro i it item
  obtain ⟨_, -⟩ := List.getElem?_eq_some_iff.mp item
  obtain ⟨made, present⟩ := stored i it item
  constructor
  · intro row found
    exact made row (later.old _ row (by omega) found)
  · intro other
    obtain ⟨row, found⟩ := present other
    obtain ⟨_, isRow⟩ := made row found
    exact ⟨row, later.kept _ row found ((objectRow_eq_ok isRow).1 ▸ other)⟩

/-- The first objects of a transaction are where they were stored. -/
theorem Committed.holds (committed : Committed db (items ++ others) db') :
    db'.Holds (List.range' (db.nextSeq + 1) items.length) items := by
  refine ⟨db.nextSeq + 1, rfl, ?_, ?_⟩
  · rw [committed.next, List.length_append]
    omega
  · intro i it item
    obtain ⟨within, -⟩ := List.getElem?_eq_some_iff.mp item
    have item' : (items ++ others)[i]? = some it := by
      rw [List.getElem?_append_left within, item]
    exact ⟨fun row found => committed.log.made i it row item' found,
      committed.log.present i it item'⟩

/-! ## The transactions -/

variable {result : Option (List Nat)}

/-- What the transaction of a push did: nothing where its key was taken. -/
theorem commitPush_ran (top : db.LogTop)
    (ran : commitPush idem requestHash items now db = .ok (result, db')) :
    (result = none ∧ db' = db ∧
      ∃ key record, idem = some key ∧ db.idempotencyKeys[key]? = some record) ∨
      ∃ seqs, result = some seqs ∧ PushedFresh idem requestHash items db seqs db' ∧
        db.Later db' ∧ Settled db' items := by
  obtain ⟨seqs, _, wrote, outcome⟩ := commitPush_parts ran
  obtain ⟨isSeqs, committed, keys⟩ := storeObjects_committed top.below wrote
  rw [keys] at outcome
  rcases outcome with taken | ⟨rfl, written, isStored, unkeyed, keyed⟩
  · exact .inl taken
  · have fresh : PushedFresh idem requestHash items db seqs db' := by
      subst isStored
      exact ⟨isSeqs, ⟨committed.next, committed.log⟩, unkeyed, keyed⟩
    subst isStored
    refine .inr ⟨seqs, rfl, fresh, ?_⟩
    refine ⟨fresh.committed.later (storeObjects_owners wrote).1 ?_,
      (settled_of_stored wrote).later fun _ _ found => found⟩
    cases idem with
    | none => exact fresh.unkeyed rfl ▸ .refl _
    | some key =>
      obtain ⟨free, keys⟩ := fresh.keyed key rfl
      rw [keys]
      refine .insert fun old found => ?_
      rw [free] at found
      cases found

theorem rememberResponse_isOk (key requestHash : Bytes) (seqs : List Nat) (db : Db) :
    ∃ result db', (rememberResponse key requestHash seqs).run db = .ok result db' := by
  have read : (get : Tx Db).run db = .ok db db := rfl
  rw [rememberResponse, bind_of_ok read]
  cases db.idempotencyKeys[key]? with
  | some => exact ⟨none, db, rfl⟩
  | none => exact ⟨_, _, rfl⟩

/-- How the store takes objects, in the state their transaction meets. -/
def storing (items : List PushObj) (now : Int64) (db : Db) :
    EStateM.Result AppError Db (List Nat) :=
  (storeObjects now (db.nextSeq + 1) items).run { db with nextSeq := db.nextSeq + items.length }

theorem pushTx_run (idem : Option Bytes) (requestHash : Bytes) (items : List PushObj) (now : Int64)
    (db : Db) :
    (pushTx idem requestHash items now).run db = match storing items now db with
      | .ok seqs stored => (match idem with
          | none => pure (some seqs)
          | some key => rememberResponse key requestHash seqs : Tx (Option (List Nat))).run stored
      | .error e stored => .error e stored := by
  have allocated : (allocSeqs items.length).run db =
    .ok db.nextSeq { db with nextSeq := db.nextSeq + items.length } := rfl
  rw [pushTx, bind_of_ok allocated, EStateM.run_bind]
  unfold storing
  cases (storeObjects now (db.nextSeq + 1) items).run
    { db with nextSeq := db.nextSeq + items.length } <;> rfl

/-- A push fails exactly on its objects. -/
theorem commitPush_eq_error (idem : Option Bytes) (requestHash : Bytes) :
    commitPush idem requestHash items now db = .error e ↔
      ∃ stored, storing items now db = .error e stored := by
  unfold commitPush transact
  rw [pushTx_run]
  cases storing items now db with
  | error e' stored => simp
  | ok seqs stored =>
    refine iff_of_false ?_ nofun
    cases idem with
    | none => nofun
    | some key =>
      obtain ⟨result, db', ran⟩ := rememberResponse_isOk key requestHash seqs stored
      dsimp only
      rw [ran]
      cases result <;> nofun

theorem storing_isOk (top : db.LogTop) (storable : Storable db items) :
    storing items now db ≠ .error e stored := by
  obtain ⟨seqs, stored, wrote⟩ : ∃ seqs stored, storing items now db = .ok seqs stored :=
    storeObjects_isOk top.below ⟨storable.fits, storable.owned, storable.agree⟩
  intro failed
  cases wrote.symm.trans failed

variable {grants : List PushObj}

/-! ## Calls -/

/-- A call of the store: a push of a principal's body under an optional idempotency key, or a
publish. -/
inductive Call where
  | push (idem : Option Bytes) (device body : Bytes) (now : Int64)
  | publish (vaultId : Bytes) (manifest : PushObj) (grants : List PushObj)
      (revokeEpoch : Option Int) (now : Int64)

section Calls

variable (P : Primitives) (itemsOf : Bytes → List PushObj) (made : Bytes → Bytes → Prop)

/-- The hash a push is remembered with: of its principal and its body. -/
def requestHash (device body : Bytes) : Bytes := P.sha256 (device ++ body)

/-- What a push read of its key, if it has one, and how it ended. -/
abbrev Outcome := Option IdempotencyRow × Except AppError (List Nat)

/-- A push after the lookup of its key. -/
def pushFound (idem : Option Bytes) (requestHash : Bytes) (items : List PushObj) (now : Int64) :
    Option IdempotencyRow → Handler (List Nat)
  | some record => Program.lift (idemResult record requestHash)
  | none => pushFresh idem requestHash items now

/-- The program of a call; `itemsOf` decodes a body. -/
def Call.program : Call → Handler Outcome
  | .push idem device body now => do
    let found ← Program.query fun db => .ok (idem.bind fun key => db.idempotencyKeys[key]?)
    let answer ← (pushFound idem (requestHash P device body) (itemsOf body) now found).observe
    pure (found, answer)
  | .publish vaultId manifest grants revokeEpoch now => do
    let answer ← (Program.commit
      (transact (publishTx vaultId manifest grants revokeEpoch now))).observe
    pure (none, answer)

/-- But for what is returned with the answer, a push is `push_objects`. -/
theorem Call.program_push (idem : Option Bytes) (device body : Bytes) (now : Int64) :
    ((Call.push idem device body now).program P itemsOf >>= fun outcome => pure outcome.2) =
      (pushObjects idem (requestHash P device body) (itemsOf body) now).observe := by
  have forget (found : Option IdempotencyRow) (x : Handler (Except AppError (List Nat))) :
      (x >>= fun answer => pure (found, answer)) >>= (fun outcome => pure outcome.2) = x := by
    induction x with
    | done result => cases result <;> rfl
    | step effect _ ih => exact congrArg (Program.step effect) (funext ih)
  refine congrArg (Program.step id) (funext fun db => ?_)
  refine (forget _ _).trans ?_
  dsimp only
  cases idem.bind fun key => db.idempotencyKeys[key]? <;> rfl

/-- The pushes are those of the pairs of a principal and a body that were `made`. -/
def Call.Made : Call → Prop
  | .push _ device body _ => made device body
  | .publish .. => True

/-- A key is recorded by a push whose objects were stored under the recorded numbers. -/
def RecordedBy (db : Db) (record : IdempotencyRow) (device body : Bytes) : Prop :=
  made device body ∧ record.requestHash = requestHash P device body ∧
    Settled db (itemsOf body) ∧ db.Holds record.response (itemsOf body)

structure PushInvariant (db : Db) : Prop where
  top : db.LogTop
  recorded : ∀ (key : Bytes) record, db.idempotencyKeys[key]? = some record →
    ∃ device body, RecordedBy P itemsOf made db record device body

/-- Everything a step of a call can do to the database. -/
def Call.Guarantee : Call → Db → Db → Prop
  | .push idem device body _, db, db' => db' = db ∨
      PushedFresh idem (requestHash P device body) (itemsOf body) db
        (List.range' (db.nextSeq + 1) (itemsOf body).length) db' ∧ db.Later db'
  | .publish _ manifest grants _ _, db, db' => db' = db ∨
      (∃ again, Committed db (manifest :: grants ++ again) db') ∧
        db'.idempotencyKeys = db.idempotencyKeys ∧ db.Later db'

/-- A push is answered from the record of its key. -/
def FromRecord (db : Db) (key device body : Bytes) (record : IdempotencyRow)
    (answer : Except AppError (List Nat)) : Prop :=
  db.idempotencyKeys[key]? = some record ∧ answer = idemResult record (requestHash P device body)

/-- A push the store took is answered as `taken` says; another by an error that still stands. -/
def Tried {α : Type} (items : List PushObj) (now : Int64) (db : Db) (taken : List Nat → Prop)
    (answer : Except AppError α) : Prop :=
  ∃ met : Db, met.Later db ∧ match storing items now met with
    | .ok seqs _ => taken seqs
    | .error e _ => answer = .error e ∧ ¬ Storable db items

/-- A push is answered from its key's record, unless it found the key free and was refused. -/
def Call.Answered : Call → Db → Outcome → Prop
  | .push none _ body now, db, (_, answer) =>
    Tried (itemsOf body) now db (fun seqs => answer = .ok seqs ∧ db.Holds seqs (itemsOf body)) answer
  | .push (some key) device body _, db, (some record, answer) =>
    FromRecord P db key device body record answer
  | .push (some key) device body now, db, (none, answer) =>
    Tried (itemsOf body) now db (fun _ => ∃ record, FromRecord P db key device body record answer)
      answer
  | .publish _ manifest grants _ _, db, (_, answer) =>
    ∀ seqs, answer = .ok seqs → db.Holds seqs (manifest :: grants)

variable {P itemsOf made} {call : Call}

theorem Call.Guarantee.later (within : call.Guarantee P itemsOf db db') : db.Later db' := by
  cases call with
  | push => exact within.elim (fun same => same ▸ .refl db) (·.2)
  | publish => exact within.elim (fun same => same ▸ .refl db) (·.2.2)

instance (call : Call) : Std.Refl (call.Guarantee P itemsOf) where
  refl db := by
    cases call with
    | push => exact .inl rfl
    | publish => exact .inl rfl

variable {answer : Except AppError (List Nat)} {outcome : Outcome} {taken : List Nat → Prop}

theorem FromRecord.later (answered : FromRecord P db key device body record answer)
    (later : db.Later db') : FromRecord P db' key device body record answer := by
  obtain ⟨_, found', rfl⟩ := later.keys key record answered.1
  exact ⟨found', answered.2⟩

theorem Tried.imp {α β : Type} {answer : Except AppError α} {answer' : Except AppError β}
    {taken' : List Nat → Prop} (tried : Tried items now db taken answer) (later : db.Later db')
    (keeps : ∀ seqs, taken seqs → taken' seqs)
    (fails : ∀ e, answer = .error e → answer' = .error e) : Tried items now db' taken' answer' := by
  obtain ⟨met, earlier, outcome⟩ := tried
  refine ⟨met, earlier.trans later, ?_⟩
  cases ran : storing items now met with
  | ok seqs =>
    rw [ran] at outcome
    exact keeps seqs outcome
  | error e =>
    rw [ran] at outcome
    exact ⟨fails e outcome.1, fun storable => outcome.2 (storable.earlier later.owners)⟩

theorem Call.Answered.later (answered : call.Answered P itemsOf db outcome) (later : db.Later db') :
    call.Answered P itemsOf db' outcome := by
  obtain ⟨found, answer⟩ := outcome
  cases call with
  | push idem =>
    cases idem with
    | none =>
      exact Tried.imp answered later (fun _ taken => ⟨taken.1, taken.2.later later⟩) fun _ => id
    | some key =>
      cases found with
      | some => exact FromRecord.later answered later
      | none =>
        exact Tried.imp answered later (fun _ ⟨record, taken⟩ => ⟨record, taken.later later⟩)
          fun _ => id
  | publish => exact fun seqs isAnswer => (answered seqs isAnswer).later later

/-! ## Soundness -/

variable {key body : Bytes} {s₀ : Db} {record : IdempotencyRow}

theorem PushInvariant.recorded_later (invariant : PushInvariant P itemsOf made db)
    (later : db.Later db') (found : db.idempotencyKeys[key]? = some record) :
    ∃ device body, RecordedBy P itemsOf made db' record device body := by
  obtain ⟨device, body, isMade, isHash, settled, holds⟩ := invariant.recorded key record found
  exact ⟨device, body, isMade, isHash, settled.later later.owners, holds.later later⟩

theorem PushedFresh.invariant
    (fresh : PushedFresh idem (requestHash P device body) (itemsOf body) db seqs db')
    (isMade : made device body) (later : db.Later db') (settled : Settled db' (itemsOf body))
    (invariant : PushInvariant P itemsOf made db) : PushInvariant P itemsOf made db' := by
  refine ⟨fresh.committed.top invariant.top, ?_⟩
  intro _ _ found
  cases idem with
  | none =>
    rw [fresh.unkeyed rfl] at found
    exact invariant.recorded_later later found
  | some own =>
    rw [(fresh.keyed own rfl).2] at found
    obtain ⟨-, rfl⟩ | ⟨-, found⟩ := Table.of_insert found
    · refine ⟨device, body, isMade, rfl, settled, ?_⟩
      have committed := fresh.committed
      rw [← List.append_nil (itemsOf body)] at committed
      exact fresh.numbered ▸ committed.holds
    · exact invariant.recorded_later later found

/-- The commit of a push stores the objects, finds its key taken, or fails on its objects. -/
theorem commitPush_answers (isMade : made device body) :
    (Program.commit (commitPush idem (requestHash P device body) (itemsOf body) now)).observe.Sound
      Db.Later ((Call.push idem device body now).Guarantee P itemsOf) (PushInvariant P itemsOf made)
      (fun s result => Tried (itemsOf body) now s (fun seqs => ∃ stored, result = .ok stored ∧
        match stored with
        | some seqs' => seqs' = seqs ∧ s.Holds seqs (itemsOf body) ∧ ∀ key, idem = some key →
            s.idempotencyKeys[key]? =
              some { requestHash := requestHash P device body, response := seqs }
        | none => ∃ key record, idem = some key ∧ s.idempotencyKeys[key]? = some record) result)
      s₀ := by
  rw [Program.observe_commit]
  refine .commit fun s result s' _ invariant ran => ?_
  cases committed : commitPush idem (requestHash P device body) (itemsOf body) now s with
  | error e =>
    rw [committed] at ran
    cases ran
    obtain ⟨stored, refused⟩ := (commitPush_eq_error idem _).mp committed
    refine ⟨invariant, .inl rfl, s, .refl s, ?_⟩
    rw [refused]
    exact ⟨rfl, fun storable => storing_isOk invariant.top storable refused⟩
  | ok done =>
    obtain ⟨_, _⟩ := done
    rw [committed] at ran
    cases ran
    obtain ⟨seqs, stored, wrote, -⟩ := commitPush_parts committed
    have took : storing (itemsOf body) now s = .ok seqs stored := wrote
    have tried {s' : Db} {result : Option (List Nat)} {taken : List Nat → Prop} (later : s.Later s')
        (holds : taken seqs) : Tried (itemsOf body) now s' taken (.ok result : Except AppError _) :=
      ⟨s, later, by rw [took]; exact holds⟩
    rcases commitPush_ran invariant.top committed with
      ⟨rfl, rfl, taken⟩ | ⟨_, rfl, fresh, later, settled⟩
    · exact ⟨invariant, .inl rfl, tried (.refl _) ⟨none, rfl, taken⟩⟩
    · have numbered := fresh.numbered
      have isSeqs := (storeObjects_committed invariant.top.below wrote).1
      refine ⟨fresh.invariant isMade later settled invariant, .inr ⟨numbered ▸ fresh, later⟩,
        tried later ⟨_, rfl, numbered.trans isSeqs.symm, ?_, fun key keyed => ?_⟩⟩
      · have all := fresh.committed
        rw [← List.append_nil (itemsOf body)] at all
        exact isSeqs ▸ all.holds
      · rw [(fresh.keyed key keyed).2, getElem?_insert_self, numbered, isSeqs]

theorem pushFresh_answers (isMade : made device body) :
    (pushFresh idem (requestHash P device body) (itemsOf body) now).observe.Sound Db.Later
      ((Call.push idem device body now).Guarantee P itemsOf) (PushInvariant P itemsOf made)
      (fun s answer => (Call.push idem device body now).Answered P itemsOf s (none, answer)) s₀ := by
  unfold pushFresh
  rw [Program.observe_bind]
  refine (commitPush_answers isMade).bind fun s result committed => ?_
  cases result with
  | error e =>
    have failed {taken : List Nat → Prop} :
        Tried (itemsOf body) now s taken (.error e : Except AppError (List Nat)) :=
      committed.imp (.refl s) (fun _ ⟨_, isOk, _⟩ => nomatch isOk) fun _ same => by cases same; rfl
    refine .pure ?_
    cases idem with
    | none => exact failed
    | some => exact failed
  | ok stored =>
    cases stored with
    | some seqs =>
      refine .pure ?_
      cases idem with
      | none =>
        refine committed.imp (.refl s) (fun _ ⟨_, isOk, taken⟩ => ?_) nofun
        cases isOk
        exact ⟨congrArg _ taken.1, taken.2.1⟩
      | some key =>
        refine committed.imp (.refl s) (fun _ ⟨_, isOk, taken⟩ => ?_) nofun
        cases isOk
        obtain ⟨rfl, -, recorded⟩ := taken
        exact ⟨_, recorded key rfl, (if_pos rfl).symm⟩
    | none =>
      obtain ⟨key, rfl⟩ : ∃ key, idem = some key := by
        obtain ⟨met, -, outcome⟩ := committed
        split at outcome
        · obtain ⟨_, isOk, taken⟩ := outcome
          cases isOk
          obtain ⟨key, -, keyed, -⟩ := taken
          exact ⟨key, keyed⟩
        · cases outcome.1
      dsimp only
      rw [Program.observe_query]
      refine .query fun s' answer later _ read => ?_
      refine committed.imp later (fun _ ⟨_, isOk, taken⟩ => ?_) nofun
      cases isOk
      obtain ⟨_, record, same, found⟩ := taken
      cases same
      obtain ⟨_, found', rfl⟩ := later.keys key record found
      cases read
      refine ⟨record, found', ?_⟩
      rw [Option.getD_some, found']
      rfl

theorem pushObjects_answers (isMade : made device body) :
    ((Call.push idem device body now).program P itemsOf).Sound Db.Later
      ((Call.push idem device body now).Guarantee P itemsOf) (PushInvariant P itemsOf made)
      ((Call.push idem device body now).Answered P itemsOf) s₀ := by
  unfold Call.program
  refine .query_bind fun s record _ _ read => ?_
  cases read
  cases found : idem.bind fun key => s.idempotencyKeys[key]? with
  | some record =>
    obtain ⟨_, rfl, found⟩ := Option.bind_eq_some_iff.mp found
    exact .pure ⟨found, rfl⟩
  | none => exact (pushFresh_answers isMade).bind fun _ _ answered => .pure answered

theorem publish_answers :
    ((Call.publish vaultId manifest grants revokeEpoch now).program P itemsOf).Sound Db.Later
      ((Call.publish vaultId manifest grants revokeEpoch now).Guarantee P itemsOf)
      (PushInvariant P itemsOf made)
      ((Call.publish vaultId manifest grants revokeEpoch now).Answered P itemsOf) s₀ := by
  unfold Call.program
  dsimp only
  rw [Program.observe_commit]
  refine .commit_bind fun s answer s' _ invariant ran => ?_
  cases committed : transact (publishTx vaultId manifest grants revokeEpoch now) s with
  | error =>
    rw [committed] at ran
    cases ran
    exact ⟨invariant, .inl rfl, nofun⟩
  | ok done =>
    obtain ⟨_, _⟩ := done
    rw [committed] at ran
    cases ran
    have ran := transact_eq_ok committed
    obtain ⟨_, _, again, isSeqs, -, -, -, all, keys⟩ := publishTx_committed invariant.top.below ran
    obtain ⟨_, _, _, _, _, wrote, -, -, wroteAgain, revoked⟩ := publishTx_parts ran
    have owners : s.OwnersKept s' := by
      intro _ _ found
      rw [Db.getVaultOwner, (revokeGrants_revokes revoked).vaults]
      exact (storeObjects_owners wroteAgain).1 _ _ ((storeObjects_owners wrote).1 _ _ found)
    have later : s.Later s' := all.later owners (keys ▸ .refl _)
    refine ⟨⟨all.top invariant.top, ?_⟩, .inr ⟨⟨again, all⟩, keys, later⟩, ?_⟩
    · intro _ _ found
      exact invariant.recorded_later later (keys ▸ found)
    · rintro _ ⟨⟩
      rw [isSeqs, Nat.add_comm 1]
      exact all.holds

/-! ## All interleavings -/

/-- Where a run of calls stands. -/
structure StoredOnce (P : Primitives) (itemsOf : Bytes → List PushObj)
    (pool : Pool Db AppError Outcome Call) : Prop where
  /-- The counter is the highest number of the log. -/
  top : pool.state.LogTop
  /-- A step writes nothing, or stores its call's objects in order under the next numbers. -/
  steps : ∀ call pool', pool.Moves call pool' → call.Guarantee P itemsOf pool.state pool'.state
  answers : ∀ call outcome, (call, .done (.ok outcome)) ∈ pool.running →
    call.Answered P itemsOf pool.state outcome
  /-- No push stores anything once its key is recorded. -/
  once : ∀ key device body now pool', pool.state.idempotencyKeys[key]? ≠ none →
    pool.Moves (.push (some key) device body now) pool' → pool'.state = pool.state
  /-- Every push with the recorded hash has the recorded numbers for its answer. -/
  replayed : ∀ key device body now found answer record,
    (.push (some key) device body now, .done (.ok (found, answer))) ∈ pool.running →
    pool.state.idempotencyKeys[key]? = some record →
    record.requestHash = requestHash P device body → answer = .ok record.response
  /-- A push with another hash gets a conflict, or the error of its own objects if it found the key
  free. -/
  refused : ∀ key device body now found answer record,
    (.push (some key) device body now, .done (.ok (found, answer))) ∈ pool.running →
    pool.state.idempotencyKeys[key]? = some record →
    record.requestHash ≠ requestHash P device body →
    match found with
    | some _ => ∃ detail, answer = .error (.conflict detail)
    | none => Tried (itemsOf body) now pool.state
        (fun _ => ∃ detail, answer = .error (.conflict detail)) answer

/-- A database without objects and keys. -/
structure Db.Fresh (db : Db) : Prop where
  next : db.nextSeq = 0
  objects : db.objects = ∅
  keys : db.idempotencyKeys = ∅

theorem Db.Fresh.invariant (fresh : db.Fresh) : PushInvariant P itemsOf made db where
  top :=
    { below := fun seq row found => by simp [fresh.objects] at found
      positive := fun seq row found => by simp [fresh.objects] at found
      top := .inl fresh.next }
  recorded := fun key record found => by simp [fresh.keys] at found

/-- A push is answered from its key's record, unless it found the key free and was refused. -/
theorem Call.Answered.of_recorded {found : Option IdempotencyRow}
    (answered : (Call.push (some key) device body now).Answered P itemsOf db (found, answer))
    (recorded : db.idempotencyKeys[key]? = some record) :
    match found with
    | some _ => answer = idemResult record (requestHash P device body)
    | none => Tried (itemsOf body) now db
        (fun _ => answer = idemResult record (requestHash P device body)) answer := by
  cases found with
  | some =>
    obtain ⟨isRecord, isAnswer⟩ := answered
    cases recorded.symm.trans isRecord
    exact isAnswer
  | none =>
    refine Tried.imp answered (.refl db) (fun _ ⟨_, isRecord, isAnswer⟩ => ?_) fun _ => id
    cases recorded.symm.trans isRecord
    exact isAnswer

theorem Call.Guarantee.once
    (within : (Call.push (some key) device body now).Guarantee P itemsOf db db')
    (taken : db.idempotencyKeys[key]? ≠ none) : db' = db := by
  rcases within with same | ⟨fresh, _⟩
  · exact same
  · exact absurd (fresh.keyed key rfl).1 taken

/-- In every interleaving the log is numbered in order and each key is used once. -/
theorem pushes_stored_once (P : Primitives) (itemsOf : Bytes → List PushObj)
    {made : Bytes → Bytes → Prop} (principals : ∀ device body, made device body → device.length = 32)
    (noCollision : ∀ device body device' body', made device body → made device' body' →
      P.NoCollision (device ++ body) (device' ++ body'))
    {init : Db} (fresh : init.Fresh)
    {pool : Pool Db AppError Outcome Call}
    (reached : Pool.Reached (Call.program P itemsOf) (fun _ call => call.Made made) init pool) :
    StoredOnce P itemsOf pool := by
  have respects (call : Call) (s s' : Db) (within : call.Guarantee P itemsOf s s') : s.Later s' :=
    within.later
  have coherent : pool.Coherent Db.Later (Call.Guarantee P itemsOf) (PushInvariant P itemsOf made)
      (Call.Answered P itemsOf) := by
    refine reached.coherent fresh.invariant respects fun call s isMade _ => ?_
    cases call with
    | push => exact pushObjects_answers isMade
    | publish => exact publish_answers
  have isMade : ∀ entry ∈ pool.running, entry.1.Made made :=
    reached.running_of (fun _ _ isMade => isMade :
      Db → ∀ call : Call, call.Made made → call.Made made)
  have answered {call outcome} (ended : (call, .done (.ok outcome)) ∈ pool.running) :
      call.Answered P itemsOf pool.state outcome := by
    obtain ⟨s, later, answered⟩ := coherent.ended ended
    exact answered.later later
  refine ⟨coherent.holds.top, fun call pool' step => (coherent.moves respects step).2,
    fun call outcome ended => answered ended, ?_, ?_, ?_⟩
  · intro key device body now _ taken step
    exact (coherent.moves respects step).2.once taken
  · intro key device body now found answer record ended recorded isHash
    obtain ⟨device', body', made', isHash', settled, _⟩ := coherent.holds.recorded key record recorded
    -- Equal hashes are hashes of one body, and the objects of the recorded one are stored.
    have sameInput : device' ++ body' = device ++ body :=
      noCollision _ _ _ _ made' (isMade _ ended) (isHash'.symm.trans isHash)
    have sameBody : body' = body := by
      refine (List.append_inj sameInput ?_).2
      rw [principals _ _ made', principals _ _ (isMade _ ended)]
    have isResult : answer = idemResult record (requestHash P device body) := by
      have isAnswer := (answered ended).of_recorded recorded
      cases found with
      | some => exact isAnswer
      | none =>
        obtain ⟨met, -, outcome⟩ := isAnswer
        split at outcome
        · exact outcome
        · exact (outcome.2 (sameBody ▸ settled.storable)).elim
    rw [isResult]
    exact if_pos isHash
  · intro _ _ _ _ found _ _ ended recorded otherHash
    have isAnswer := (answered ended).of_recorded recorded
    cases found with
    | some => exact ⟨_, isAnswer.trans (if_neg otherHash)⟩
    | none =>
      exact Tried.imp isAnswer (.refl _) (fun _ same => ⟨_, same.trans (if_neg otherHash)⟩)
        fun _ => id

end Calls

/-! ## Runs -/

namespace Sample

open UniSsh.Sample

/-- Bodies of one item each; the version of the last is no `i64`. -/
def bodies (body : Bytes) : List PushObj :=
  let item (version : UInt64) : List PushObj :=
    let bytes := encoded (.item (item owner [5] [] version 0))
    ((parseOpen bytes).map fun parsed => ({ bytes, parsed } : PushObj)).toOption.toList
  match body with
  | [1] => item 1
  | [2] => item 2
  | [3] => item 0x8000000000000000
  | _ => []

def pushing (body : Bytes) : Call := .push (some [7]) ownerKey body 0

/-- Two pushes with one key that have both found it free before either commits. -/
def racing (body other : Bytes) : Pool Db AppError Outcome Call :=
  let pushes := [pushing body, pushing other].map fun call =>
    (call, call.program .transparent bodies)
  [0, 1, 0, 1, 0, 1].foldl Pool.advance ⟨{}, pushes⟩

def answers (pool : Pool Db AppError Outcome Call) :
    List (Option (Except AppError (List Nat))) :=
  pool.running.map fun entry =>
    match entry.2 with
    | .done (.ok outcome) => some outcome.2
    | _ => none

end Sample

open UniSsh.Server.Sample

theorem Sample.racing_reached {made : Bytes → Bytes → Prop}
    (isMade : made UniSsh.Sample.ownerKey body) (isMade' : made UniSsh.Sample.ownerKey other) :
    Pool.Reached (Call.program .transparent bodies) (fun _ call => call.Made made) {}
      (racing body other) := by
  have start : Pool.Reached (Call.program .transparent bodies)
      (fun _ call => call.Made made) {} ⟨{}, []⟩ := .init
  have reached := (start.start (pushing other) isMade').start (pushing body) isMade
  exact reached.advances [0, 1, 0, 1, 0, 1]

/-- Two pushes race for one key. -/
theorem pushes_stored_once_racing :
    StoredOnce .transparent bodies (racing [1] [2]) ∧
    StoredOnce .transparent bodies (racing [1] [1]) ∧
    answers (racing [1] [1]) = [some (.ok [1]), some (.ok [1])] := by
  let made (device body : Bytes) : Prop :=
    device = UniSsh.Sample.ownerKey ∧ (body = [1] ∨ body = [2])
  have principals (device body : Bytes) (isMade : made device body) : device.length = 32 := by
    rw [isMade.1]
    decide +kernel
  have noCollision (device body device' body' : Bytes) (isMade : made device body)
      (isMade' : made device' body') :
      Primitives.transparent.NoCollision (device ++ body) (device' ++ body') := by
    obtain ⟨rfl, rfl | rfl⟩ := isMade <;> obtain ⟨rfl, rfl | rfl⟩ := isMade' <;>
      unfold Primitives.NoCollision <;> decide +kernel
  have once {body other : Bytes} (isMade : made UniSsh.Sample.ownerKey body)
      (isMade' : made UniSsh.Sample.ownerKey other) :
      StoredOnce .transparent bodies (racing body other) :=
    pushes_stored_once .transparent bodies principals noCollision ⟨rfl, rfl, rfl⟩
      (racing_reached isMade isMade')
  exact ⟨once ⟨rfl, .inl rfl⟩ ⟨rfl, .inr rfl⟩, once ⟨rfl, .inl rfl⟩ ⟨rfl, .inl rfl⟩,
    by decide +kernel⟩

/-- A push with another hash that cannot be stored fails on its version, not on the conflict. -/
theorem raced_push_malformed :
    Pool.Reached (Call.program .transparent bodies) (fun _ call => call.Made fun _ _ => True)
      {} (racing [1] [3]) ∧
    (racing [1] [3]).state.idempotencyKeys[([7] : Bytes)]?.map IdempotencyRow.requestHash =
      some (requestHash .transparent UniSsh.Sample.ownerKey [1]) ∧
    requestHash .transparent UniSsh.Sample.ownerKey [1] ≠
      requestHash .transparent UniSsh.Sample.ownerKey [3] ∧
    answers (racing [1] [3]) = [some (.ok [1]), some (.error (exceedsI64 "integer"))] :=
  ⟨racing_reached trivial trivial, by decide +kernel, by decide +kernel, by decide +kernel⟩

end UniSsh.Server
