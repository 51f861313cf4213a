import UniSsh.Server.Stored

/-!
# The log

Transactions append their objects under fresh numbers (`Appends`). Only older states of an account
leave the log, so the highest number taken is the highest in the log (`Db.LogTop`).
-/

namespace UniSsh.Server

open List

/-- The objects under their numbers. -/
abbrev Log := Table Nat ObjectRow

/-- Every number of the log is below `first`. -/
def Log.Below (log : Log) (first : Nat) : Prop :=
  ∀ (seq : Nat) row, log[seq]? = some row → seq < first

/-- What storing `items` under the numbers from `first` on does to the log. -/
structure Appends (first : Nat) (log : Log) (items : List PushObj) (log' : Log) : Prop where
  below : log'.Below (first + items.length)
  old : ∀ (seq : Nat) row, log'[seq]? = some row → seq < first →
    log[seq]? = some row
  kept : ∀ (seq : Nat) row, log[seq]? = some row → row.objectTag ≠ 7 →
    log'[seq]? = some row
  idle : items = [] → log' = log
  /-- A number of the transaction is its object's. -/
  made : ∀ (i : Nat) it row, items[i]? = some it →
    log'[first + i]? = some row → ∃ now, objectRow it.parsed it.bytes now = .ok row
  present : ∀ (i : Nat) it, items[i]? = some it → it.parsed.tagU8 ≠ 7 →
    ∃ row, log'[first + i]? = some row
  last : ∀ n, items.length = n + 1 → ∃ row, log'[first + n]? = some row

namespace Appends

variable {first : Nat} {log : Log}

theorem nil (below : log.Below first) : Appends first log [] log where
  below := below
  old := fun _ _ found _ => found
  kept := fun _ _ found _ => found
  idle := fun _ => rfl
  made := fun _ _ _ item => by simp at item
  present := fun _ _ item => by simp at item
  last := fun _ length => by simp at length

theorem append (before : Appends first log items mid)
    (after : Appends (first + items.length) mid items' log') :
    Appends first log (items ++ items') log' where
  below := by
    rw [length_append, ← Nat.add_assoc]
    exact after.below
  old := fun seq row found early => before.old seq row
    (after.old seq row found (Nat.lt_of_lt_of_le early (Nat.le_add_right _ _))) early
  kept := fun seq row found other =>
    after.kept seq row (before.kept seq row found other) other
  idle := by
    intro empty
    obtain ⟨none, none'⟩ := append_eq_nil_iff.mp empty
    exact (after.idle none').trans (before.idle none)
  made := by
    intro i it row item found
    rcases Nat.lt_or_ge i items.length with early | late
    · rw [getElem?_append_left early] at item
      exact before.made i it row item (after.old _ row found (Nat.add_lt_add_left early first))
    · rw [getElem?_append_right late] at item
      refine after.made (i - items.length) it row item ?_
      rwa [Nat.add_assoc, Nat.add_sub_cancel' late]
  present := by
    intro i it item other
    rcases Nat.lt_or_ge i items.length with early | late
    · rw [getElem?_append_left early] at item
      obtain ⟨row, found⟩ := before.present i it item other
      obtain ⟨_, made⟩ := before.made i it row item found
      exact ⟨row, after.kept _ row found ((objectRow_eq_ok made).1 ▸ other)⟩
    · rw [getElem?_append_right late] at item
      obtain ⟨row, found⟩ := after.present (i - items.length) it item other
      rw [Nat.add_assoc, Nat.add_sub_cancel' late] at found
      exact ⟨row, found⟩
  last := by
    intro n length
    rw [length_append] at length
    cases second : items'.length with
    | zero =>
      rw [after.idle (length_eq_zero_iff.mp second)]
      exact before.last n (by omega)
    | succ m =>
      obtain ⟨row, _⟩ := after.last m second
      exact ⟨row, by rwa [show first + n = first + items.length + m by omega]⟩

end Appends

/-! ## One object -/

namespace Materialized

variable {seq : Nat} {p : ParsedObject} {now : Int64} {db db' : Db} {n : Nat} {row : ObjectRow}

theorem log_old (materialized : Materialized seq p now db db') (found : db'.objects[n]? = some row) :
    db.objects[n]? = some row := by
  cases materialized with
  | compacted =>
    rw [getElem?_filter'] at found
    exact (filter_eq_some_iff.mp found).1
  | _ => exact found

/-- Only older states of the account leave the log. -/
theorem log_kept (materialized : Materialized seq p now db db') (found : db.objects[n]? = some row)
    (stays : row.objectTag ≠ 7 ∨ row.objVersion.map SqlInt.toU64 = p.objVersion) :
    db'.objects[n]? = some row := by
  cases materialized with
  | compacted pruned _ states older =>
    have unpruned : pruned row = false := by
      by_contra chosen
      have chosen := Bool.not_eq_false _ ▸ chosen
      exact stays.elim (fun other => other (states row chosen)) (fun same => older row chosen same)
    simp [found, unpruned]
  | _ => exact found

end Materialized

variable {now : Int64} {db db' : Db} {seqs : List Nat}

theorem storeObject_appends (below : Log.Below db.objects seq)
    (ran : (storeObject seq it now).run db = .ok () db') :
    Appends seq db.objects [it] db'.objects := by
  obtain ⟨_, _, inserted, ran⟩ := bind_run_ok ran
  obtain ⟨row, made, _, rfl⟩ := insertObject_run inserted
  have materialized := materialize_run ran
  have inLog : (db.objects.insert seq row)[seq]? = some row := getElem?_insert_self
  have ofOld : ∀ {n : Nat} {found : ObjectRow}, (db.objects.insert seq row)[n]? = some found →
      n ≠ seq → db.objects[n]? = some found := by
    intro n found isRow other
    rwa [Table.getElem?_insert, if_neg other.symm] at isRow
  have ownStays : db'.objects[seq]? = some row :=
    materialized.log_kept inLog (.inr (objectRow_version made))
  refine ⟨?_, ?_, ?_, nofun, ?_, ?_, ?_⟩
  · intro n found isRow
    by_contra above
    have later : seq < n := Nat.not_lt.mp above
    have early := below n found (ofOld (materialized.log_old isRow) (Nat.ne_of_gt later))
    exact Nat.lt_asymm later early
  · intro n found isRow early
    exact ofOld (materialized.log_old isRow) (Nat.ne_of_lt early)
  · intro n found isRow other
    refine materialized.log_kept ?_ (.inl other)
    rw [Table.getElem?_insert, if_neg (Nat.ne_of_gt (below n found isRow))]
    exact isRow
  · intro i it' _ item isRow
    obtain ⟨rfl, rfl⟩ : i = 0 ∧ it = it' := by
      cases i with
      | zero => exact ⟨rfl, Option.some.inj item⟩
      | succ => simp at item
    cases ownStays.symm.trans isRow
    exact ⟨now, made⟩
  · intro i _ item _
    cases i with
    | zero => exact ⟨row, ownStays⟩
    | succ => simp at item
  · intro n length
    cases n with
    | zero => exact ⟨row, ownStays⟩
    | succ => simp at length

variable {items : List PushObj} {first : Nat}

theorem storeObjects_appends (ran : (storeObjects now first items).run db = .ok seqs db')
    (below : Log.Below db.objects first) :
    seqs = List.range' first items.length ∧ Appends first db.objects items db'.objects := by
  induction items generalizing first seqs db with
  | nil =>
    cases ran
    exact ⟨rfl, .nil below⟩
  | cons _ _ ih =>
    obtain ⟨_, _, stored, ran⟩ := bind_run_ok ran
    obtain ⟨_, _, storedRest, ran⟩ := bind_run_ok ran
    cases ran
    have head := storeObject_appends below stored
    obtain ⟨rfl, tail⟩ := ih storedRest head.below
    exact ⟨rfl, head.append tail⟩

/-! ## Transactions -/

/-- The counter and the idempotency keys, which storing objects does not write. -/
def Db.counters (db : Db) : Nat × Table Bytes IdempotencyRow := (db.nextSeq, db.idempotencyKeys)

theorem storeObjects_counters (ran : (storeObjects now first items).run db = .ok seqs db') :
    db'.counters = db.counters := by
  induction items generalizing first seqs db with
  | nil =>
    cases ran
    rfl
  | cons _ _ ih =>
    obtain ⟨_, _, stored, ran⟩ := bind_run_ok ran
    obtain ⟨_, _, storedRest, ran⟩ := bind_run_ok ran
    cases ran
    refine (ih storedRest).trans ?_
    obtain ⟨_, _, inserted, materialized⟩ := bind_run_ok stored
    obtain ⟨_, -, -, rfl⟩ := insertObject_run inserted
    cases materialize_run materialized <;> rfl

/-- The highest number taken is the highest number in the log. -/
structure Db.LogTop (db : Db) : Prop where
  below : Log.Below db.objects (db.nextSeq + 1)
  positive : ∀ (seq : Nat) row, db.objects[seq]? = some row → 0 < seq
  top : db.nextSeq = 0 ∨ ∃ row, db.objects[db.nextSeq]? = some row

/-- A transaction stored `items` under the next numbers. -/
structure Committed (db : Db) (items : List PushObj) (db' : Db) : Prop where
  next : db'.nextSeq = db.nextSeq + items.length
  log : Appends (db.nextSeq + 1) db.objects items db'.objects

theorem Committed.append (before : Committed db items mid) (after : Committed mid items' db') :
    Committed db (items ++ items') db' where
  next := by rw [after.next, before.next, length_append, Nat.add_assoc]
  log := by
    refine before.log.append ?_
    have next := after.log
    rwa [before.next, Nat.add_right_comm] at next

theorem Committed.top (committed : Committed db items db') (top : db.LogTop) : db'.LogTop where
  below := by
    rw [committed.next, Nat.add_right_comm]
    exact committed.log.below
  positive := by
    intro seq row found
    rcases Nat.lt_or_ge seq (db.nextSeq + 1) with early | late
    · exact top.positive seq row (committed.log.old seq row found early)
    · exact Nat.lt_of_lt_of_le (Nat.succ_pos _) late
  top := by
    rw [committed.next]
    cases length : items.length with
    | zero =>
      rw [Nat.add_zero, committed.log.idle (length_eq_zero_iff.mp length)]
      exact top.top
    | succ n =>
      right
      rw [Nat.add_succ, ← Nat.succ_add]
      exact committed.log.last n length

/-- Objects stored under numbers just taken. -/
theorem storeObjects_committed (below : Log.Below db.objects (db.nextSeq + 1))
    (ran : (storeObjects now (db.nextSeq + 1) items).run
      { db with nextSeq := db.nextSeq + items.length } = .ok seqs db') :
    seqs = List.range' (db.nextSeq + 1) items.length ∧ Committed db items db' ∧
      db'.idempotencyKeys = db.idempotencyKeys := by
  obtain ⟨isSeqs, appends⟩ := storeObjects_appends ran below
  have counters := storeObjects_counters ran
  exact ⟨isSeqs, ⟨congrArg Prod.fst counters, appends⟩, congrArg Prod.snd counters⟩

variable {result : Option (List Nat)}

/-- A push stored its objects under the next numbers, and recorded them under its free key. -/
structure PushedFresh (idem : Option Bytes) (requestHash : Bytes) (items : List PushObj) (db : Db)
    (seqs : List Nat) (db' : Db) : Prop where
  numbered : seqs = List.range' (db.nextSeq + 1) items.length
  committed : Committed db items db'
  unkeyed : idem = none → db'.idempotencyKeys = db.idempotencyKeys
  keyed : ∀ key, idem = some key → db.idempotencyKeys[key]? = none ∧
    db'.idempotencyKeys = db.idempotencyKeys.insert key { requestHash, response := seqs }

variable {idem : Option Bytes} {vaultId : Bytes} {revokeEpoch : Option Int}

theorem revokeGrants_log (ran : (revokeGrants vaultId revokeEpoch).run db = .ok () db') :
    db'.counters = db.counters ∧ db'.objects = db.objects := by
  cases revokeEpoch with
  | none =>
    cases ran
    exact ⟨rfl, rfl⟩
  | some =>
    cases ran
    exact ⟨rfl, rfl⟩

theorem publishTx_committed (below : Log.Below db.objects (db.nextSeq + 1))
    (ran : (publishTx vaultId manifest grants revokeEpoch now).run db = .ok seqs db') :
    ∃ stored newEpoch again, seqs = List.range' (db.nextSeq + 1) (1 + grants.length) ∧
      Committed db (manifest :: grants) stored ∧
      toI64 (manifest.parsed.keyEpoch.getD 0) "manifest.key_epoch" = .ok newEpoch ∧
      (reemitted stored vaultId newEpoch).mapM ObjectRow.reparse = .ok again ∧
      Committed db (manifest :: grants ++ again) db' ∧
      db'.idempotencyKeys = db.idempotencyKeys := by
  obtain ⟨stored, newEpoch, again, _, _, wrote, isEpoch, reparsed, storedAgain, revoked⟩ :=
    publishTx_parts ran
  obtain ⟨isSeqs, committed, keys⟩ := storeObjects_committed below wrote
  have below' : Log.Below stored.objects (stored.nextSeq + 1) := by
    rw [committed.next, Nat.add_right_comm]
    exact committed.log.below
  obtain ⟨-, committedAgain, keysAgain⟩ := storeObjects_committed below' storedAgain
  have all := committed.append committedAgain
  obtain ⟨counters, objects⟩ := revokeGrants_log revoked
  refine ⟨stored, newEpoch, again, ?_, committed, isEpoch, reparsed, ?_, ?_⟩
  · rw [isSeqs, Nat.add_comm 1]
    rfl
  · exact ⟨(congrArg Prod.fst counters).trans all.next, objects ▸ all.log⟩
  · exact (congrArg Prod.snd counters).trans (keysAgain.trans keys)

end UniSsh.Server
