import UniSsh.Sync.Delivered
import Mathlib.Order.Monotone.Basic

/-!
# An honest server

It accepts every request, numbers what it takes and hands out what follows a cursor in order. A
pull against it processes exactly what the device has not seen yet (`syncPull_honest`).
-/

namespace UniSsh

open List

/-- How a server numbers the objects it accepts and how much it hands out at a time. -/
structure Numbering where
  /-- The sequence number of the `n`-th object. -/
  seqOf : Nat → Nat
  increasing : StrictMono seqOf
  positive : 0 < seqOf 0
  page : UInt64 → Nat
  pages : ∀ cursor, 0 < page cursor

namespace Numbering

variable (N : Numbering)

def number (n : Nat) : UInt64 := .ofNat (N.seqOf n)

/-- Objects with their sequence numbers, the first one being the `n`-th. -/
def numberFrom : Nat → List SyncObject → List (UInt64 × SyncObject)
  | _, [] => []
  | n, obj :: rest => (N.number n, obj) :: numberFrom (n + 1) rest

/-- The cursor of a device that has seen the first `n` objects. -/
def cursorAt : Nat → UInt64
  | 0 => 0
  | n + 1 => N.number n

/-- The server whose state is the list of objects it accepted. -/
def server : SyncTransport (List SyncObject) where
  pushObjects log objects :=
    (.ok ((N.numberFrom log.length objects).map Prod.fst), log ++ objects)
  deltaSince log cursor :=
    (((N.numberFrom 0 log).filter fun entry => cursor < entry.1).take (N.page cursor), log)
  reportVersion log := N.cursorAt log.length

theorem server_accepts : N.server.Accepts := fun _ _ => ⟨_, rfl⟩

theorem replay_server (log : List SyncObject) (requests : List (List SyncObject)) :
    replay N.server log requests = log ++ requests.flatten := by
  induction requests generalizing log with
  | nil => simp [replay]
  | cons _ _ ih =>
    rw [flatten_cons, ← append_assoc, ← ih]
    rfl

/-- The first `n` sequence numbers fit the cursor's column. -/
def Fits (n : Nat) : Prop := ∀ i < n, N.seqOf i ≤ i64Max.toNat

variable {N} {n i k : Nat} {log : List SyncObject}

section

variable (fits : N.Fits n)
include fits

theorem Fits.mono (le : m ≤ n) : N.Fits m :=
  fun i below => fits i (Nat.lt_of_lt_of_le below le)

theorem number_toNat (below : i < n) : (N.number i).toNat = N.seqOf i := by
  have bound := fits i below
  have small : i64Max.toNat < 2 ^ 64 := i64Max.toNat_lt
  exact UInt64.toNat_ofNat_of_lt' (Nat.lt_of_le_of_lt bound small)

theorem number_le (below : i < n) : N.number i ≤ i64Max := by
  rw [UInt64.le_iff_toNat_le, number_toNat fits below]
  exact fits i below

theorem number_lt (before : i < j) (below : j < n) : N.number i < N.number j := by
  rw [UInt64.lt_iff_toNat_lt, number_toNat fits (Nat.lt_trans before below),
    number_toNat fits below]
  exact N.increasing before

theorem cursorAt_lt (le : k ≤ i) (below : i < n) : N.cursorAt k < N.number i := by
  cases k with
  | zero =>
    rw [UInt64.lt_iff_toNat_lt, number_toNat fits below]
    exact Nat.lt_of_lt_of_le N.positive (N.increasing.monotone (Nat.zero_le i))
  | succ => exact number_lt fits le below

theorem cursorAt_le (le : k ≤ n) : N.cursorAt k ≤ N.cursorAt n := by
  rcases Nat.eq_or_lt_of_le le with rfl | before
  · exact UInt64.le_refl _
  · cases n with
    | zero => omega
    | succ n => exact UInt64.le_of_lt (cursorAt_lt fits (Nat.le_of_lt_succ before) (Nat.lt_succ_self n))

end

/-! ## Numbered lists -/

theorem numberFrom_append (n : Nat) (first second : List SyncObject) :
    N.numberFrom n (first ++ second) =
      N.numberFrom n first ++ N.numberFrom (n + first.length) second := by
  induction first generalizing n with
  | nil => rfl
  | cons _ _ ih =>
    simp only [cons_append, numberFrom, ih, length_cons]
    rw [Nat.add_right_comm, Nat.add_assoc]

theorem numberFrom_take (n k : Nat) (log : List SyncObject) :
    (N.numberFrom n log).take k = N.numberFrom n (log.take k) := by
  induction log generalizing n k with
  | nil => simp [numberFrom]
  | cons _ _ ih =>
    cases k with
    | zero => rfl
    | succ => simp only [numberFrom, take_succ_cons, ih]

theorem mem_numberFrom (member : entry ∈ N.numberFrom n log) :
    ∃ i, n ≤ i ∧ i < n + log.length ∧ entry.1 = N.number i ∧ entry.2 ∈ log := by
  induction log generalizing n with
  | nil => cases member
  | cons _ _ ih =>
    rcases mem_cons.mp member with rfl | later
    · exact ⟨n, Nat.le_refl n, by simp, rfl, mem_cons_self⟩
    · obtain ⟨i, _, _, number, inside⟩ := ih later
      refine ⟨i, by omega, ?_, number, mem_cons_of_mem _ inside⟩
      simp only [length_cons]
      omega

theorem pairwise_numberFrom (fits : N.Fits (n + log.length)) :
    (N.numberFrom n log).Pairwise fun a b => a.1 < b.1 := by
  induction log generalizing n with
  | nil => exact List.Pairwise.nil
  | cons _ rest ih =>
    rw [length_cons, Nat.add_comm rest.length, ← Nat.add_assoc] at fits
    refine List.Pairwise.cons ?_ (ih fits)
    intro _ member
    obtain ⟨i, above, below, number, -⟩ := mem_numberFrom member
    rw [number]
    exact number_lt fits above below

/-- What follows the cursor of a device that has seen the first `k` objects. -/
theorem filter_numberFrom (fits : N.Fits log.length) (le : k ≤ log.length) :
    ((N.numberFrom 0 log).filter fun entry => N.cursorAt k < entry.1) =
      N.numberFrom k (log.drop k) := by
  have split := take_append_drop k log
  have taken : (log.take k).length = k := length_take_of_le le
  have seen : ((N.numberFrom 0 (log.take k)).filter fun entry => N.cursorAt k < entry.1) = [] := by
    rw [filter_eq_nil_iff]
    intro entry member
    obtain ⟨i, -, below, number, -⟩ := mem_numberFrom member
    rw [Nat.zero_add, taken] at below
    have before : N.cursorAt (i + 1) ≤ N.cursorAt k := cursorAt_le (fits.mono le) below
    rw [number, decide_eq_true_eq, UInt64.not_lt]
    exact before
  have unseen : ((N.numberFrom k (log.drop k)).filter fun entry => N.cursorAt k < entry.1) =
      N.numberFrom k (log.drop k) := by
    rw [filter_eq_self]
    intro entry member
    obtain ⟨i, above, below, number, -⟩ := mem_numberFrom member
    rw [length_drop] at below
    rw [number, decide_eq_true_eq]
    exact cursorAt_lt fits above (by omega)
  calc ((N.numberFrom 0 log).filter fun entry => N.cursorAt k < entry.1)
      = ((N.numberFrom 0 (log.take k ++ log.drop k)).filter
          fun entry => N.cursorAt k < entry.1) := by rw [split]
    _ = N.numberFrom k (log.drop k) := by
        rw [numberFrom_append, filter_append, seen, Nat.zero_add, taken, unseen, nil_append]

end Numbering

/-! ## Pulling from it -/

section Pull

variable (P : Primitives) (ctx : SyncContext)

/-- Processes objects in order, moving the cursor behind each one. -/
def consume : List (UInt64 × SyncObject) → SyncReport → SyncM SyncReport
  | [], report => pure report
  | (seq, obj) :: rest, report => do
    let outcome ← processObject P ctx obj
    storageWrite fun s => s.setSyncCursor (pullCursorKey ctx.tenant) seq
    consume rest (report.add seq outcome)

variable {P ctx}

theorem consume_append (first second : List (UInt64 × SyncObject)) (report : SyncReport) :
    consume P ctx (first ++ second) report =
      consume P ctx first report >>= consume P ctx second := by
  induction first generalizing report with
  | nil => rfl
  | cons entry _ ih =>
    obtain ⟨_, _⟩ := entry
    simp only [cons_append, consume, bind_assoc, ih]

/-- The cursor behind the last of some objects. -/
def lastSeq (entries : List (UInt64 × SyncObject)) (cursor : UInt64) : UInt64 :=
  (entries.getLast?.map Prod.fst).getD cursor

theorem lastSeq_cons (entry : UInt64 × SyncObject) (rest : List (UInt64 × SyncObject))
    (cursor : UInt64) : lastSeq (entry :: rest) cursor = lastSeq rest entry.1 := by
  unfold lastSeq
  cases rest with
  | nil => rfl
  | cons => rw [getLast?_cons_cons, getLast?_cons]; rfl

variable {page : List (UInt64 × SyncObject)}

/-- A page of increasing numbers above the cursor is consumed as it stands. -/
theorem pullPage_consume (report : SyncReport) (s : Storage) (floorLe : floor ≤ cursor)
    (above : ∀ entry ∈ page, cursor < entry.1) (increasing : page.Pairwise fun a b => a.1 < b.1) :
    (pullPage P ctx floor page cursor report).run s =
      match (consume P ctx page report).run s with
      | .ok report s' => .ok (lastSeq page cursor, report) s'
      | .error e s' => .error e s' := by
  induction page generalizing cursor report s with
  | nil => rfl
  | cons entry _ ih =>
    obtain ⟨seq, obj⟩ := entry
    have aboveCursor : cursor < seq := above (seq, obj) mem_cons_self
    have aboveFloor : ¬ seq ≤ floor := UInt64.not_le.mpr (UInt64.lt_of_le_of_lt floorLe aboveCursor)
    obtain ⟨first, later⟩ := pairwise_cons.mp increasing
    unfold pullPage consume
    rw [if_neg aboveFloor, EStateM.run_bind, EStateM.run_bind]
    cases (processObject P ctx obj).run s with
    | error => rfl
    | ok outcome mid =>
      dsimp only
      rw [EStateM.run_bind, EStateM.run_bind, passCursor_run, if_pos aboveCursor, storageWrite_run]
      cases mid.setSyncCursor (pullCursorKey ctx.tenant) seq with
      | error => rfl
      | ok moved =>
        dsimp only
        rw [ih (report.add seq outcome) moved
          (UInt64.le_trans floorLe (UInt64.le_of_lt aboveCursor)) first later, lastSeq_cons]

/-- The engine's order leaves a page of increasing numbers as it is. -/
theorem sortDelta_eq_self (increasing : page.Pairwise fun a b => a.1 < b.1) :
    sortDelta page = page := by
  apply List.Pairwise.insertionSort_eq
  refine increasing.imp ?_
  intro a b less
  have first : compare a.1 b.1 = .lt := Std.compare_eq_lt.mpr less
  change (compareLex (compareOn Prod.fst) (compareOn Prod.snd) _ _).isLE = true
  simp only [compareLex, compareOn, first]
  rfl

variable {N : Numbering} {log : List SyncObject}

theorem lastSeq_numberFrom (k : Nat) (objects : List SyncObject) :
    lastSeq (N.numberFrom k objects) (N.cursorAt k) = N.cursorAt (k + objects.length) := by
  induction objects generalizing k with
  | nil => rfl
  | cons _ rest ih =>
    rw [Numbering.numberFrom, lastSeq_cons, length_cons, Nat.add_comm rest.length, ← Nat.add_assoc]
    exact ih (k + 1)

variable {k : Nat}

theorem cursorAt_ne (fits : N.Fits (k + m)) (positive : 0 < m) :
    N.cursorAt (k + m) ≠ N.cursorAt k := by
  obtain ⟨m, rfl⟩ := Nat.exists_eq_succ_of_ne_zero (Nat.ne_of_gt positive)
  have before : N.cursorAt k < N.number (k + m) :=
    Numbering.cursorAt_lt fits (Nat.le_add_right k m) (Nat.lt_succ_self _)
  intro same
  rw [← same] at before
  exact UInt64.lt_irrefl _ before

/-- The page loop against an honest server consumes what follows the cursor. -/
theorem pullPages_honest (fits : N.Fits log.length) (le : k ≤ log.length) (report : SyncReport)
    (s : Storage) :
    pullPages P ctx N.server (N.cursorAt k) report log s =
      (consume P ctx (N.numberFrom k (log.drop k)) report).run s := by
  induction left : log.length - k using Nat.strongRecOn generalizing k report s with
  | ind _ ih =>
    let size := N.page (N.cursorAt k)
    let page := (log.drop k).take size
    let rest := (log.drop k).drop size
    have delta : N.server.deltaSince log (N.cursorAt k) = (N.numberFrom k page, log) := by
      change ((((N.numberFrom 0 log).filter fun entry => N.cursorAt k < entry.1).take size), log) = _
      rw [Numbering.filter_numberFrom fits le, Numbering.numberFrom_take]
    have pieces : log.drop k = page ++ rest := (take_append_drop _ _).symm
    have pageLe : k + page.length ≤ log.length := by
      have bound := congrArg List.length pieces
      rw [length_drop, length_append] at bound
      omega
    rw [pullPages_eq, delta, pieces, Numbering.numberFrom_append, consume_append]
    by_cases empty : log.drop k = []
    · obtain ⟨noPage, noRest⟩ := append_eq_nil_iff.mp (pieces.symm.trans empty)
      have noDelta : N.numberFrom k page = [] := by rw [noPage, Numbering.numberFrom]
      rw [if_pos noDelta, noDelta, noRest]
      rfl
    · have shown : 0 < page.length := by
        have size_pos := N.pages (N.cursorAt k)
        have length_pos := length_pos_iff.mpr empty
        simp only [page, length_take]
        omega
      have nonempty : N.numberFrom k page ≠ [] := by
        obtain ⟨_, _, cons⟩ := exists_cons_of_length_pos shown
        rw [cons]
        exact cons_ne_nil _ _
      have increasing : (N.numberFrom k page).Pairwise fun a b => a.1 < b.1 :=
        Numbering.pairwise_numberFrom (fits.mono pageLe)
      have above : ∀ entry ∈ N.numberFrom k page, N.cursorAt k < entry.1 := by
        intro _ member
        obtain ⟨i, le, below, number, -⟩ := Numbering.mem_numberFrom member
        rw [number]
        exact Numbering.cursorAt_lt (fits.mono pageLe) le below
      rw [if_neg nonempty, sortDelta_eq_self increasing,
        pullPage_consume report s (UInt64.le_refl _) above increasing, lastSeq_numberFrom,
        EStateM.run_bind]
      cases (consume P ctx (N.numberFrom k page) report).run s with
      | error => rfl
      | ok report mid =>
        dsimp only
        rw [if_neg (cursorAt_ne (fits.mono pageLe) shown),
          ih (log.length - (k + page.length)) (by omega) pageLe report mid rfl]
        have behind : log.drop (k + page.length) = rest := by
          rw [← drop_drop, pieces, drop_left]
        rw [behind]

/-- A pull from an honest server processes, in order, exactly the objects the device has not
seen. -/
theorem syncPull_honest (fits : N.Fits log.length) (le : k ≤ log.length)
    (seen : storedCursor s ctx.tenant = N.cursorAt k) :
    (syncPull P ctx N.server log).run s =
      (consume P ctx (N.numberFrom k (log.drop k)) {}).run s := by
  have notBelow : ¬ N.server.reportVersion log < N.cursorAt k :=
    UInt64.not_lt.mpr (Numbering.cursorAt_le fits le)
  change (if N.server.reportVersion log < storedCursor s ctx.tenant then
    .error (.transportRollback _ _) s
    else pullPages P ctx N.server (storedCursor s ctx.tenant) {} log s) = _
  rw [seen, if_neg notBelow, pullPages_honest fits le]

end Pull

end UniSsh
