import UniSsh.Crypto.Signature

/-!
# The audit chain

Every row stores the digest of the digest before it and of its own columns; `verifyAuditChain`
recomputes them.
-/

namespace UniSsh.Server

open List

/-- The columns of an audit row that its writer gives. -/
@[ext] structure AuditEvent where
  source : Bytes
  entryBlob : Bytes
  signature : Option Bytes
  authorPubkey : Option Bytes
  vaultId : Option Bytes
  recordedAt : Int64
  serverSeq : Option Int64
  deriving DecidableEq

/-- A row of the log; `prevHash` is the head of the chain at this row. -/
structure AuditChainRow extends AuditEvent where
  seq : Int64
  prevHash : Option Bytes
  deriving DecidableEq

def putOpt : Option Bytes → Bytes
  | some b => 1 :: lenPrefixed 4 b
  | none => [0]

def i64Bytes (n : Int64) : Bytes := beBytes 8 n.toUInt64.toNat

/-- The bytes of a row that are hashed. An absent `serverSeq` is written as `-1`. -/
def auditRecordBytes (seq : Int64) (e : AuditEvent) : Bytes :=
  ascii "unissh-audit-chain-v2" ++ (i64Bytes seq ++ (lenPrefixed 4 e.source ++
    (lenPrefixed 4 e.entryBlob ++ (putOpt e.signature ++ (putOpt e.authorPubkey ++
      (putOpt e.vaultId ++ (i64Bytes e.recordedAt ++ i64Bytes (e.serverSeq.getD (-1)))))))))

/-- The head before the first row. -/
def noHead : Bytes := replicate 32 0

section

variable (P : Primitives)

def chainHash (prev record : Bytes) : Bytes := P.sha256 (prev ++ record)

/-- Appends a row under the lock of the instance row; the rows are in the order of `seq`. -/
def appendAuditRow (rows : List AuditChainRow) (e : AuditEvent) : Option (List AuditChainRow) :=
  let last := (rows.map AuditChainRow.seq).max?.getD 0
  -- past the largest number the statement fails and nothing is stored
  if last = Int64.maxValue then none
  else
    let prev := (rows.reverse.findSome? AuditChainRow.prevHash).getD noHead
    let record := auditRecordBytes (last + 1) e
    some (rows ++ [{ toAuditEvent := e, seq := last + 1, prevHash := chainHash P prev record }])

/-- The loop of `verifyAuditChain`: the verdict, the rows read, the break and the head reached. -/
def verifyFrom (expected : Bytes) (count : Nat) (head : Option Bytes) :
    List AuditChainRow → Bool × Nat × Option Int64 × Option Bytes
  | [] => (true, count, none, head)
  | r :: rest =>
    let computed := chainHash P expected (auditRecordBytes r.seq r.toAuditEvent)
    if r.prevHash = some computed then verifyFrom computed (count + 1) (some computed) rest
    else (false, count + 1, some r.seq, head)

def verifyAuditChain (rows : List AuditChainRow) : Bool × Nat × Option Int64 × Option Bytes :=
  verifyFrom P noHead 0 none rows

/-! ## Heads -/

/-- The head of the chain over the rows. -/
def headOf (start : Bytes) (rows : List AuditChainRow) : Bytes :=
  rows.foldl (fun head r => chainHash P head (auditRecordBytes r.seq r.toAuditEvent)) start

/-- What is hashed along the rows. -/
def hashedAlong : Bytes → List AuditChainRow → List Bytes
  | _, [] => []
  | start, r :: rest =>
    let input := start ++ auditRecordBytes r.seq r.toAuditEvent
    input :: hashedAlong (P.sha256 input) rest

variable {P} {start : Bytes} {rows rows' : List AuditChainRow} {r : AuditChainRow} {count : Nat}
  {head : Option Bytes}

theorem headOf_append : headOf P start (rows ++ [r]) =
    chainHash P (headOf P start rows) (auditRecordBytes r.seq r.toAuditEvent) := by
  simp [headOf]

theorem hashedAlong_append : hashedAlong P start (rows ++ [r]) = hashedAlong P start rows ++
    [headOf P start rows ++ auditRecordBytes r.seq r.toAuditEvent] := by
  induction rows generalizing start with
  | nil => rfl
  | cons first rest ih => exact congrArg (_ :: ·) ih

theorem headOf_length (fits : start.length = 32) : (headOf P start rows).length = 32 := by
  induction rows using reverseRecOn with
  | nil => exact fits
  | append_singleton rows r _ =>
    rw [headOf_append]
    exact P.sha256_length _

/-- A chain stands when it stands without its last row and that row holds the new head. -/
theorem verifyFrom_append : (verifyFrom P start count head (rows ++ [r])).1 = true ↔
    (verifyFrom P start count head rows).1 = true ∧
      r.prevHash = some (headOf P start (rows ++ [r])) := by
  induction rows generalizing start count head with
  | nil =>
    simp only [nil_append, verifyFrom, headOf, foldl_cons, foldl_nil]
    split <;> simp_all
  | cons first rest ih =>
    simp only [cons_append, verifyFrom]
    split
    · exact ih
    · simp

/-- The digest in the last row. -/
def storedHead (rows : List AuditChainRow) : Option Bytes :=
  rows.getLast?.bind AuditChainRow.prevHash

theorem storedHead_eq (stands : (verifyAuditChain P rows).1 = true) :
    (storedHead rows).getD noHead = headOf P noHead rows := by
  cases rows using reverseRecOn with
  | nil => rfl
  | append_singleton rows r => simp [storedHead, (verifyFrom_append.mp stands).2]

/-! ## Runs -/

/-- The log's last digest is the head of its chain, and the chain stands. -/
def Chained (P : Primitives) (rows : List AuditChainRow) : Prop :=
  (verifyAuditChain P rows).1 = true ∧
    (rows.reverse.findSome? AuditChainRow.prevHash).getD noHead = headOf P noHead rows

theorem Chained.append {e : AuditEvent} (before : Chained P rows)
    (appended : appendAuditRow P rows e = some rows') : Chained P rows' := by
  unfold appendAuditRow at appended
  dsimp only at appended
  split at appended
  · cases appended
  · cases appended
    rw [before.2]
    refine ⟨verifyFrom_append.mpr ⟨before.1, ?_⟩, ?_⟩
    · rw [headOf_append]
    · simp [headOf_append]

theorem Chained.run {events : List AuditEvent} (before : Chained P rows)
    (ran : events.foldlM (appendAuditRow P) rows = some rows') : Chained P rows' := by
  induction events generalizing rows with
  | nil =>
    cases ran
    exact before
  | cons e rest ih =>
    obtain ⟨_, appended, ran⟩ := Option.bind_eq_some_iff.mp ran
    exact ih (before.append appended) ran

/-! ## The encoding -/

/-- The row's lengths fit their prefixes, and `-1` is not one of its numbers. -/
structure AuditEvent.Plain (e : AuditEvent) : Prop where
  fits : ∀ field ∈ [e.source, e.entryBlob], field.length < 256 ^ 4
  optional : ∀ field ∈ [e.signature, e.authorPubkey, e.vaultId], ∀ b ∈ field, b.length < 256 ^ 4
  serverSeq : e.serverSeq ≠ some (-1)

theorem i64Bytes_append_inj {n m : Int64} {x y : Bytes}
    (same : i64Bytes n ++ x = i64Bytes m ++ y) : n = m ∧ x = y := by
  obtain ⟨numbers, rests⟩ := beBytes_append_inj n.toUInt64.toNat_lt m.toUInt64.toNat_lt same
  exact ⟨congrArg Int64.ofUInt64 (UInt64.toNat_inj.mp numbers), rests⟩

theorem putOpt_append_inj {a b : Option Bytes} {x y : Bytes} (fits : ∀ field ∈ a, field.length < 256 ^ 4)
    (fits' : ∀ field ∈ b, field.length < 256 ^ 4) (same : putOpt a ++ x = putOpt b ++ y) :
    a = b ∧ x = y := by
  cases a <;> cases b
  · exact ⟨rfl, (cons.inj same).2⟩
  · cases (cons.inj same).1
  · cases (cons.inj same).1
  · obtain ⟨rfl, rests⟩ := lenPrefixed_append_inj (fits _ rfl) (fits' _ rfl) (cons.inj same).2
    exact ⟨rfl, rests⟩

theorem auditRecordBytes_inj {seq seq' : Int64} {e e' : AuditEvent} (plain : e.Plain)
    (plain' : e'.Plain) (same : auditRecordBytes seq e = auditRecordBytes seq' e') :
    seq = seq' ∧ e = e' := by
  obtain ⟨seqs, same⟩ := i64Bytes_append_inj (append_cancel_left same)
  obtain ⟨sources, same⟩ :=
    lenPrefixed_append_inj (plain.fits _ (by simp)) (plain'.fits _ (by simp)) same
  obtain ⟨blobs, same⟩ :=
    lenPrefixed_append_inj (plain.fits _ (by simp)) (plain'.fits _ (by simp)) same
  obtain ⟨signatures, same⟩ :=
    putOpt_append_inj (plain.optional _ (by simp)) (plain'.optional _ (by simp)) same
  obtain ⟨authors, same⟩ :=
    putOpt_append_inj (plain.optional _ (by simp)) (plain'.optional _ (by simp)) same
  obtain ⟨vaults, same⟩ :=
    putOpt_append_inj (plain.optional _ (by simp)) (plain'.optional _ (by simp)) same
  obtain ⟨times, same⟩ := i64Bytes_append_inj same
  have numbers := (i64Bytes_append_inj (congrArg (· ++ []) same)).1
  have present := plain.serverSeq
  have present' := plain'.serverSeq
  refine ⟨seqs, AuditEvent.ext sources blobs signatures authors vaults times ?_⟩
  cases left : e.serverSeq <;> cases right : e'.serverSeq <;> simp_all

/-- Two chains that stand and reach one head have the same rows. -/
theorem rows_eq_of_headOf_eq (stands : (verifyAuditChain P rows).1 = true)
    (stands' : (verifyAuditChain P rows').1 = true)
    (heads : headOf P noHead rows = headOf P noHead rows')
    (plain : ∀ r ∈ rows ++ rows', r.Plain)
    (fresh : ∀ a ∈ hashedAlong P noHead rows ++ hashedAlong P noHead rows', P.sha256 a ≠ noHead)
    (free : ∀ a ∈ hashedAlong P noHead rows, ∀ b ∈ hashedAlong P noHead rows', P.NoCollision a b) :
    rows = rows' := by
  induction rows using reverseRecOn generalizing rows' with
  | nil =>
    cases rows' using reverseRecOn with
    | nil => rfl
    | append_singleton rows' r' =>
      rw [headOf_append] at heads
      exact absurd heads.symm (fresh _ (by simp [hashedAlong_append]))
  | append_singleton rows r ih =>
    cases rows' using reverseRecOn with
    | nil =>
      rw [headOf_append] at heads
      exact absurd heads (fresh _ (by simp [hashedAlong_append]))
    | append_singleton rows' r' =>
      obtain ⟨stands, stored⟩ := verifyFrom_append.mp stands
      obtain ⟨stands', stored'⟩ := verifyFrom_append.mp stands'
      rw [← heads] at stored'
      rw [headOf_append, headOf_append] at heads
      simp only [hashedAlong_append] at fresh free
      -- the two last inputs agree; the head before each is its first 32 bytes
      have inputs := free _ (by simp) _ (by simp) heads
      obtain ⟨before, records⟩ := append_inj inputs
        ((headOf_length rfl).trans (headOf_length rfl).symm)
      obtain ⟨seqs, events⟩ :=
        auditRecordBytes_inj (plain r (by simp)) (plain r' (by simp)) records
      have same := ih stands stands' before (by grind) (by grind) (by grind)
      have last : r = r' := by
        cases r
        cases r'
        grind
      rw [same, last]

/-- The chain over appended rows stands, and no other rows with its last digest do. -/
theorem appended_chain_is_tamper_evident {events : List AuditEvent}
    (ran : events.foldlM (appendAuditRow P) [] = some rows) :
    (verifyAuditChain P rows).1 = true ∧
      ∀ rows', rows' ≠ rows → storedHead rows' = storedHead rows →
        (∀ r ∈ rows ++ rows', r.Plain) →
        (∀ a ∈ hashedAlong P noHead rows ++ hashedAlong P noHead rows', P.sha256 a ≠ noHead) →
        (∀ a ∈ hashedAlong P noHead rows, ∀ b ∈ hashedAlong P noHead rows', P.NoCollision a b) →
          (verifyAuditChain P rows').1 = false := by
  have stands := (Chained.run ⟨rfl, rfl⟩ ran).1
  refine ⟨stands, fun rows' other heads plain fresh free => ?_⟩
  by_contra! stands'
  rw [ne_eq, Bool.not_eq_false] at stands'
  have reached := storedHead_eq stands'
  rw [heads, storedHead_eq stands] at reached
  exact other (rows_eq_of_headOf_eq stands stands' reached plain fresh free).symm

end

/-- A logged sign-in. -/
def Sample.observed : AuditEvent :=
  { source := ascii "server-observed", entryBlob := ascii "login", signature := none,
    authorPubkey := none, vaultId := none, recordedAt := 5, serverSeq := none }

/-- A log of two rows with the digests that two `observed` get. -/
def Sample.logged (P : Primitives) (first : AuditEvent) : List AuditChainRow :=
  let head := chainHash P noHead (auditRecordBytes 1 observed)
  [{ toAuditEvent := first, seq := 1, prevHash := head },
    { toAuditEvent := observed, seq := 2, prevHash := chainHash P head (auditRecordBytes 2 observed) }]

/-- The first of two rows is edited, and the digests are left as they are. -/
theorem edited_row_breaks_chain :
    (verifyAuditChain .transparent
      (Sample.logged .transparent { Sample.observed with entryBlob := [] })).1 = false := by
  have ran : [Sample.observed, Sample.observed].foldlM (appendAuditRow .transparent) [] =
    some (Sample.logged .transparent Sample.observed) := rfl
  refine (appended_chain_is_tamper_evident ran).2 _ (by decide) rfl ?_ (by decide +kernel) ?_
  · have plain : Sample.observed.Plain := ⟨by decide, by simp [Sample.observed], nofun⟩
    simp only [Sample.logged, cons_append, nil_append, mem_cons, not_mem_nil, or_false,
      forall_eq_or_imp, forall_eq, plain, true_and, and_true]
    exact ⟨by decide, by simp [Sample.observed], nofun⟩
  · unfold Primitives.NoCollision
    decide +kernel

end UniSsh.Server
