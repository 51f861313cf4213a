import Mathlib.Algebra.Order.BigOperators.Group.List
import UniSsh.Server.Requests

/-!
# The delta

A page is planned with one query and read with another; a change of visibility in between shows in
the second. A client that follows the cursors gets every row it may see once.
-/

namespace UniSsh.Server

open List

/-! ## Visibility -/

namespace Db

/-- The latest epoch a vault has a manifest of. -/
def latestManifestEpoch (db : Db) (vaultId : Bytes) : Option UInt64 :=
  ((db.manifests.toList.filter fun entry => entry.1.1 = vaultId).map fun entry =>
    entry.1.2.toU64).max?

/-- Whether a member holds a grant of the latest epoch that is neither revoked nor expired. -/
def holdsGrant (db : Db) (vaultId member : Bytes) (now : Int64) : Bool :=
  db.grants.toList.any fun entry =>
    entry.1.1 = vaultId ∧ entry.1.2.1 = member ∧ entry.2.revoked = false ∧
      (entry.2.notAfter.all fun t => now < t) ∧
      some entry.1.2.2.toU64 = db.latestManifestEpoch vaultId

/-- Whether a device may see a vault: its owner, or the holder of a grant. -/
def seesVault (db : Db) (vaultId member : Bytes) (now : Int64) : Bool :=
  db.getVaultOwner vaultId = some member ∨ db.holdsGrant vaultId member now

end Db

/-- Objects outside vaults are for all, a vault's for who sees it, an account's for its author. -/
def deltaVisible (db : Db) (member : Bytes) (now : Int64) (row : ObjectRow) : Bool :=
  ((row.vaultId = none ∨ row.vaultId = some []) ∧ (row.objectTag = 5 ∨ row.objectTag = 6)) ∨
    (row.vaultId.any fun vaultId => db.seesVault vaultId member now) ∨
    (row.objectTag = 7 ∧ row.authorPubkey = some member)

/-- Visibility in one vault. -/
def deltaVisibleInVault (db : Db) (vaultId member : Bytes) (now : Int64) (row : ObjectRow) : Bool :=
  row.vaultId = some vaultId ∧ db.seesVault vaultId member now

def deltaFilter (db : Db) (vault : Option Bytes) (member : Bytes) (now : Int64) :
    ObjectRow → Bool :=
  match vault with
  | none => deltaVisible db member now
  | some vaultId => deltaVisibleInVault db vaultId member now

/-! ## Pages -/

def usizeMax : Nat := 2 ^ 64 - 1

/-- How many of the sizes a page takes: always the first, and then while they fit. -/
def pageLenFrom (maxBytes : Nat) : (total taken : Nat) → List Nat → Nat
  | _, taken, [] => taken
  | total, taken, size :: rest =>
    if 0 < taken ∧ maxBytes < min (total + size) usizeMax then taken
    else pageLenFrom maxBytes (min (total + size) usizeMax) (taken + 1) rest

def pageLen (sizes : List Nat) (limit maxBytes : Nat) : Nat :=
  pageLenFrom maxBytes 0 0 (sizes.take limit)

structure DeltaRow where
  serverSeq : Nat
  objectBytes : Bytes
  deriving DecidableEq

structure DeltaPage where
  rows : List DeltaRow
  hasMore : Bool
  nextCursor : Nat

/-- A request for the delta as the store gets it. -/
structure DeltaReq where
  cursor : Nat
  limit : Nat
  maxBytes : Nat
  member : Bytes
  now : Int64
  vault : Option Bytes

/-- The rows of the log in an interval that the request may see, in sequence order. -/
def visibleRows (db : Db) (req : DeltaReq) (inside : Nat → Bool) : List DeltaRow :=
  ((db.objects.toList.filter fun entry =>
      inside entry.1 ∧ deltaFilter db req.vault req.member req.now entry.2)).map fun entry =>
    { serverSeq := entry.1, objectBytes := entry.2.objectBytes }

/-- A planned page: the last sequence number, how many rows, and whether more were seen. -/
structure DeltaPlan where
  upto : Nat
  count : Nat
  more : Bool

/-- Plans a page on the sizes of the rows, one past the limit; nothing when there is no row. -/
def planPage (req : DeltaReq) (db : Db) : Option DeltaPlan :=
  let plan := (visibleRows db req fun seq => req.cursor < seq).take (req.limit + 1)
  let keep := pageLen (plan.map fun row => row.objectBytes.length) req.limit req.maxBytes
  (plan.take keep).getLast?.map fun last =>
    { upto := last.serverSeq, count := (plan.take keep).length, more := keep < plan.length }

/-- The rows of a planned page. -/
def deltaRows (req : DeltaReq) (upto limit : Nat) (db : Db) : List DeltaRow :=
  (visibleRows db req fun seq => req.cursor < seq ∧ seq ≤ upto).take limit

/-- Reads a planned page. -/
def readPage (req : DeltaReq) (plan : DeltaPlan) (db : Db) : DeltaPage :=
  let rows := deltaRows req plan.upto plan.count db
  let nextCursor :=
    if rows.length < plan.count then plan.upto
    else (rows.getLast?.map DeltaRow.serverSeq).getD plan.upto
  { rows, hasMore := plan.more || nextCursor < plan.upto, nextCursor }

/-- One page of the delta; the two queries are separate reads. -/
def deltaPage (req : DeltaReq) : Handler DeltaPage := do
  match ← Program.query fun db => .ok (planPage req db) with
  | none => pure { rows := [], hasMore := false, nextCursor := req.cursor }
  | some plan => Program.query fun db => .ok (readPage req plan db)

/-! ## The request -/

/-- The limits of a delta; the largest page has at least one row. -/
structure DeltaLimits where
  pageSize : UInt32
  maxPageSize : UInt32
  maxPageBytes : Nat
  positive : 1 ≤ maxPageSize.toNat

structure DeltaQuery where
  cursor : Option Int
  limit : Option Int
  vault : Option Bytes

/-- The number of rows a request may get. -/
def DeltaLimits.clamp (limits : DeltaLimits) (requested : Option Int) : Nat :=
  (max 1 (min (requested.getD limits.pageSize.toNat) limits.maxPageSize.toNat)).toNat

/-- The page request of a query. -/
def DeltaQuery.request (limits : DeltaLimits) (auth : AuthCtx) (now : Int64) (q : DeltaQuery) :
    DeltaReq where
  cursor := (max (q.cursor.getD 0) 0).toNat
  limit := limits.clamp q.limit
  maxBytes := limits.maxPageBytes
  member := auth.deviceEd25519
  now := now
  vault := q.vault

/-- `GET /v1/sync/delta`. -/
def delta (limits : DeltaLimits) (auth : AuthCtx) (now : Int64) (q : DeltaQuery) :
    Handler DeltaPage :=
  deltaPage (q.request limits auth now)

/-- A client that asks for the next page while there is more, with at most `fuel` requests. -/
def followDelta (page : DeltaQuery → Except AppError DeltaPage) :
    (fuel : Nat) → DeltaQuery → Option (List DeltaPage)
  | 0, _ => none
  | fuel + 1, q =>
    match page q with
    | .error _ => none
    | .ok p =>
      if p.hasMore then
        (followDelta page fuel { q with cursor := some p.nextCursor }).map (p :: ·)
      else some [p]

/-! ## The length of a page -/

section PageLen

variable (maxBytes : Nat)

theorem pageLenFrom_le (total taken : Nat) (sizes : List Nat) :
    pageLenFrom maxBytes total taken sizes ≤ taken + sizes.length := by
  induction sizes generalizing total taken with
  | nil => exact Nat.le_refl _
  | cons size _ ih =>
    unfold pageLenFrom
    split
    · omega
    · have := ih (min (total + size) usizeMax) (taken + 1)
      simp only [length_cons]
      omega

theorem le_pageLenFrom (total taken : Nat) (sizes : List Nat) :
    taken ≤ pageLenFrom maxBytes total taken sizes := by
  induction sizes generalizing total taken with
  | nil => exact Nat.le_refl _
  | cons _ _ ih =>
    unfold pageLenFrom
    split
    · exact Nat.le_refl _
    · exact Nat.le_of_succ_le (ih _ (taken + 1))

/-- The sizes taken after the first fit the budget, as long as they can be added up. -/
theorem pageLenFrom_fits (total taken : Nat) (sizes : List Nat)
    (sum : total + sizes.sum ≤ usizeMax) (fits : taken ≤ 1 ∨ total ≤ maxBytes) :
    pageLenFrom maxBytes total taken sizes ≤ 1 ∨
      total + (sizes.take (pageLenFrom maxBytes total taken sizes - taken)).sum ≤ maxBytes := by
  induction sizes generalizing total taken with
  | nil =>
    simp only [pageLenFrom, take_nil, sum_nil]
    omega
  | cons size rest ih =>
    simp only [sum_cons] at sum
    have exact : min (total + size) usizeMax = total + size := by omega
    unfold pageLenFrom
    rw [exact]
    split
    · simp only [Nat.sub_self, take_zero, sum_nil]
      omega
    · next =>
      have next := ih (total + size) (taken + 1) (by omega) (by omega)
      have more := le_pageLenFrom maxBytes (total + size) (taken + 1) rest
      obtain ⟨k, isCount⟩ := Nat.exists_eq_add_of_le more
      rw [isCount] at next ⊢
      rw [show taken + 1 + k - (taken + 1) = k by omega] at next
      rw [show taken + 1 + k - taken = k + 1 by omega]
      simp only [take_succ_cons, sum_cons]
      omega

variable (sizes : List Nat) (limit : Nat)

theorem pageLen_le : pageLen sizes limit maxBytes ≤ min limit sizes.length := by
  have := pageLenFrom_le maxBytes 0 0 (sizes.take limit)
  simpa [pageLen] using this

theorem pageLen_pos {sizes : List Nat} {limit : Nat} (some : sizes ≠ []) (positive : 1 ≤ limit) :
    1 ≤ pageLen sizes limit maxBytes := by
  obtain ⟨_, _, rfl⟩ := exists_cons_of_ne_nil some
  obtain ⟨n, rfl⟩ := Nat.exists_eq_add_of_le' positive
  unfold pageLen pageLenFrom
  simp only [take_succ_cons, Nat.lt_irrefl, false_and, ↓reduceIte]
  exact le_pageLenFrom maxBytes _ 1 _

theorem pageLen_fits {sizes : List Nat} {limit : Nat} (sum : (sizes.take limit).sum ≤ usizeMax) :
    pageLen sizes limit maxBytes ≤ 1 ∨
      (sizes.take (pageLen sizes limit maxBytes)).sum ≤ maxBytes := by
  have fits := pageLenFrom_fits maxBytes 0 0 (sizes.take limit) (by omega) (by omega)
  have inside : pageLen sizes limit maxBytes ≤ limit :=
    (pageLen_le maxBytes sizes limit).trans (Nat.min_le_left _ _)
  rw [Nat.sub_zero, Nat.zero_add, take_take] at fits
  change _ ∨ (sizes.take (min (pageLen sizes limit maxBytes) limit)).sum ≤ _ at fits
  rwa [Nat.min_eq_left inside] at fits

end PageLen

/-! ## Rows in sequence order -/

section Ordered

variable {rows : List DeltaRow} {last : DeltaRow} {k : Nat}

/-- Up to the last row of a beginning, rows in sequence order are that beginning. -/
theorem split_at_last (ordered : rows.Pairwise fun a b => a.serverSeq < b.serverSeq)
    (isLast : (rows.take k).getLast? = some last) :
    (rows.filter fun row => row.serverSeq ≤ last.serverSeq) = rows.take k ∧
      (rows.filter fun row => last.serverSeq < row.serverSeq) = rows.drop k := by
  have parts := take_append_drop k rows
  obtain ⟨_, isFront⟩ := getLast?_eq_some_iff.mp isLast
  rw [← parts, pairwise_append, isFront, pairwise_append] at ordered
  obtain ⟨⟨-, -, before⟩, -, after⟩ := ordered
  have upTo : ∀ row ∈ rows.take k, row.serverSeq ≤ last.serverSeq := by
    rw [isFront]
    intro row member
    rcases mem_append.mp member with inside | isEnd
    · exact Nat.le_of_lt (before row inside last (mem_singleton_self _))
    · exact (mem_singleton.mp isEnd) ▸ Nat.le_refl _
  have above : ∀ row ∈ rows.drop k, last.serverSeq < row.serverSeq := fun row member =>
    after last (mem_append_right _ (mem_singleton_self _)) row member
  constructor
  · conv_lhs => rw [← parts, filter_append]
    rw [filter_eq_self.mpr fun row member => decide_eq_true (upTo row member),
      filter_eq_nil_iff.mpr fun row member => by simpa using above row member,
      append_nil]
  · conv_lhs => rw [← parts, filter_append]
    rw [filter_eq_self.mpr fun row member => decide_eq_true (above row member),
      filter_eq_nil_iff.mpr fun row member => by simpa using upTo row member,
      nil_append]

variable {db : Db} {req : DeltaReq} {inside : Nat → Bool}

theorem visibleRows_ordered :
    (visibleRows db req inside).Pairwise fun a b => a.serverSeq < b.serverSeq := by
  unfold visibleRows
  rw [pairwise_map]
  have ordered : db.objects.toList.Pairwise fun a b => compare a.1 b.1 = .lt :=
    Std.ExtTreeMap.ordered_keys_toList
  exact (ordered.imp Nat.compare_eq_lt.mp).filter _

/-- The request as it goes on after a row. -/
def DeltaReq.after (req : DeltaReq) (cursor : Nat) : DeltaReq := { req with cursor }

theorem visibleRows_upto (db : Db) (req : DeltaReq) (upto : Nat) :
    visibleRows db req (fun seq => req.cursor < seq ∧ seq ≤ upto) =
      (visibleRows db req fun seq => req.cursor < seq).filter fun row => row.serverSeq ≤ upto := by
  unfold visibleRows
  rw [filter_map, filter_filter]
  congr 1
  apply filter_congr
  intro _ _
  simp only [Function.comp_apply, Bool.decide_and, decide_eq_true_eq]
  grind

theorem visibleRows_after (later : req.cursor ≤ cursor) :
    visibleRows db (req.after cursor) (fun seq => cursor < seq) =
      (visibleRows db req fun seq => req.cursor < seq).filter fun row => cursor < row.serverSeq := by
  unfold visibleRows
  rw [filter_map, filter_filter]
  congr 1
  apply filter_congr
  intro entry _
  have above : cursor < entry.1 → req.cursor < entry.1 := fun h => Nat.lt_of_le_of_lt later h
  simp only [DeltaReq.after, Function.comp_apply, Bool.decide_and, decide_eq_true_eq]
  grind

theorem mem_visibleRows_inside (member : row ∈ visibleRows db req inside) :
    inside row.serverSeq = true := by
  obtain ⟨_, filtered, rfl⟩ := mem_map.mp member
  exact (of_decide_eq_true (mem_filter.mp filtered).2).1

end Ordered

/-! ## One page -/

section Page

variable {db : Db} {req : DeltaReq}

/-- All the rows a request may see above its cursor. -/
def DeltaReq.rows (req : DeltaReq) (db : Db) : List DeltaRow :=
  visibleRows db req fun seq => req.cursor < seq

/-- The bytes of rows. -/
def totalBytes (rows : List DeltaRow) : Nat :=
  (rows.map fun row => row.objectBytes.length).sum

/-- A page is a beginning of the rows, not empty, within the limit and the budget. -/
structure PageOf (req : DeltaReq) (db : Db) (page : DeltaPage) : Prop where
  rows : page.rows = (req.rows db).take page.rows.length
  progress : req.rows db ≠ [] → page.rows ≠ []
  rest : (req.after page.nextCursor).rows db = (req.rows db).drop page.rows.length
  more : page.hasMore = true ↔ page.rows.length < (req.rows db).length
  limit : page.rows.length ≤ req.limit
  bytes : totalBytes page.rows ≤ req.maxBytes ∨ page.rows.length ≤ 1

/-- What a page plans: how many rows, and whether that is all. -/
theorem planPage_eq (positive : 1 ≤ req.limit)
    (sum : totalBytes ((req.rows db).take req.limit) ≤ usizeMax) :
    ∃ n, n ≤ req.limit ∧ n ≤ (req.rows db).length ∧ (req.rows db ≠ [] → 1 ≤ n) ∧
      (totalBytes ((req.rows db).take n) ≤ req.maxBytes ∨ n ≤ 1) ∧
      planPage req db = ((req.rows db).take n).getLast?.map fun last =>
        { upto := last.serverSeq, count := n, more := n < (req.rows db).length } := by
  let seen := (req.rows db).take (req.limit + 1)
  let sizes := seen.map fun row => row.objectBytes.length
  have bound := pageLen_le req.maxBytes sizes req.limit
  have taken : ∀ n ≤ req.limit, seen.take n = (req.rows db).take n := by
    intro n _
    rw [take_take, Nat.min_eq_left (by omega)]
  have seenLength : seen.length = min (req.limit + 1) (req.rows db).length := length_take
  have isLength : sizes.length = seen.length := length_map _
  refine ⟨pageLen sizes req.limit req.maxBytes, by omega, by omega, ?_, ?_, ?_⟩
  · intro some
    refine pageLen_pos req.maxBytes ?_ positive
    simpa [sizes, seen] using some
  · have fits := @pageLen_fits req.maxBytes sizes req.limit ?_
    · rw [← map_take, taken _ (by omega)] at fits
      exact fits.symm
    · rw [← map_take, taken _ (Nat.le_refl _)]
      exact sum
  · have isCount : (seen.take (pageLen sizes req.limit req.maxBytes)).length =
        pageLen sizes req.limit req.maxBytes := by
      rw [length_take, Nat.min_eq_left]
      omega
    have isMore : pageLen sizes req.limit req.maxBytes < seen.length ↔
        pageLen sizes req.limit req.maxBytes < (req.rows db).length := by
      omega
    change ((seen.take (pageLen sizes req.limit req.maxBytes)).getLast?.map fun last =>
      { upto := last.serverSeq
        count := (seen.take (pageLen sizes req.limit req.maxBytes)).length
        more := pageLen sizes req.limit req.maxBytes < seen.length : DeltaPlan }) = _
    rw [isCount, decide_eq_decide.mpr isMore, taken _ (by omega)]

theorem readPage_pageOf (positive : 1 ≤ req.limit)
    (sum : totalBytes ((req.rows db).take req.limit) ≤ usizeMax) :
    match planPage req db with
    | none => req.rows db = []
    | some plan => PageOf req db (readPage req plan db) := by
  obtain ⟨n, limit, inside, progress, bytes, isPlan⟩ := planPage_eq positive sum
  rw [isPlan]
  cases isLast : ((req.rows db).take n).getLast? with
  | none =>
    by_contra some
    rcases take_eq_nil_iff.mp (getLast?_eq_none_iff.mp isLast) with _ | empty
    · exact absurd (progress some) (by omega)
    · exact some empty
  | some last =>
    dsimp only [map_some]
    obtain ⟨upTo, above⟩ := split_at_last visibleRows_ordered isLast
    have isRows : deltaRows req last.serverSeq n db = (req.rows db).take n := by
      rw [deltaRows, visibleRows_upto]
      rw [upTo, take_take, Nat.min_self]
      rfl
    have isCount : ((req.rows db).take n).length = n := by
      rw [length_take, Nat.min_eq_left inside]
    have isPage : readPage req
        { upto := last.serverSeq, count := n, more := n < (req.rows db).length } db =
        { rows := (req.rows db).take n, hasMore := n < (req.rows db).length,
          nextCursor := last.serverSeq } := by
      unfold readPage
      dsimp only
      rw [isRows, isCount, if_neg (Nat.lt_irrefl n), isLast]
      simp
    have member : last ∈ req.rows db := mem_of_mem_take (mem_of_getLast? isLast)
    have later : req.cursor ≤ last.serverSeq :=
      Nat.le_of_lt (of_decide_eq_true (mem_visibleRows_inside member))
    rw [isPage]
    exact {
      rows := by
        rw [isCount]
      progress := fun some => ne_nil_of_mem (mem_of_getLast? isLast)
      rest := by
        rw [isCount]
        exact (visibleRows_after later).trans above
      more := by
        rw [isCount, decide_eq_true_iff]
      limit := by
        rwa [isCount]
      bytes := by
        rwa [isCount] }

/-- A page of a log at rest. -/
theorem deltaPage_pageOf (positive : 1 ≤ req.limit)
    (sum : totalBytes ((req.rows db).take req.limit) ≤ usizeMax) :
    ∃ page, (deltaPage req).runAlone db = (db, .ok page) ∧ PageOf req db page := by
  have read := readPage_pageOf positive sum
  cases planned : planPage req db with
  | none =>
    rw [planned] at read
    have empty : req.rows db = [] := read
    refine ⟨⟨[], false, req.cursor⟩, ?_, rfl, absurd empty, rfl, by simp [empty], Nat.zero_le _,
      .inr (Nat.zero_le _)⟩
    change Program.runAlone (match planPage req db with
      | none => _
      | some plan => _) db = _
    rw [planned]
    rfl
  | some plan =>
    rw [planned] at read
    refine ⟨_, ?_, read⟩
    change Program.runAlone (match planPage req db with
      | none => _
      | some plan => _) db = _
    rw [planned]
    rfl

variable {plan : DeltaPlan}

theorem planPage_count (planned : planPage req db = some plan) : 1 ≤ plan.count := by
  obtain ⟨_, isLast, rfl⟩ := map_eq_some_iff.mp planned
  exact length_pos_of_mem (mem_of_getLast? isLast)

/-- A plan that is read later leaves out no row visible then before the next cursor. -/
theorem readPage_complete (isPlan : planPage req planned = some plan) (visible : row ∈ req.rows db)
    (upto : row.serverSeq ≤ (readPage req plan db).nextCursor) :
    row ∈ (readPage req plan db).rows := by
  let inside := visibleRows db req fun seq => req.cursor < seq ∧ seq ≤ plan.upto
  have ofInside : row.serverSeq ≤ plan.upto → row ∈ inside := by
    intro small
    rw [show inside = _ from visibleRows_upto db req plan.upto]
    exact mem_filter.mpr ⟨visible, decide_eq_true small⟩
  change row.serverSeq ≤ (if (inside.take plan.count).length < plan.count then plan.upto
    else ((inside.take plan.count).getLast?.map DeltaRow.serverSeq).getD plan.upto) at upto
  change row ∈ inside.take plan.count
  by_cases short : (inside.take plan.count).length < plan.count
  · -- Fewer rows than planned: all of them are there.
    rw [if_pos short] at upto
    rw [length_take] at short
    rw [take_of_length_le (by omega)]
    exact ofInside upto
  · rw [if_neg short] at upto
    have some : inside.take plan.count ≠ [] := by
      intro empty
      rw [empty, length_nil] at short
      exact short (planPage_count isPlan)
    obtain ⟨last, isLast⟩ := Option.ne_none_iff_exists'.mp (mt getLast?_eq_none_iff.mp some)
    rw [isLast, map_some, Option.getD_some] at upto
    have member : last ∈ inside := mem_of_mem_take (mem_of_getLast? isLast)
    have lastInside := of_decide_eq_true (mem_visibleRows_inside member)
    rw [← (split_at_last visibleRows_ordered isLast).1]
    exact mem_filter.mpr ⟨ofInside (upto.trans lastInside.2), decide_eq_true upto⟩

end Page

/-! ## The whole delta -/

/-- Both databases bound a blob by less than this. -/
def blobLimit : Nat := 2 ^ 31

/-- The objects of the log are blobs a database can hold. -/
def Db.BlobsFit (db : Db) : Prop :=
  ∀ (seq : Nat) row, db.objects[seq]? = some row → row.objectBytes.length < blobLimit

theorem DeltaLimits.clamp_bounds (limits : DeltaLimits) (requested : Option Int) :
    1 ≤ limits.clamp requested ∧ limits.clamp requested ≤ limits.maxPageSize.toNat ∧
      ∀ n, requested = some n → 1 ≤ n → (limits.clamp requested : Int) ≤ n := by
  have positive := limits.positive
  unfold DeltaLimits.clamp
  refine ⟨by omega, by omega, ?_⟩
  rintro n rfl _
  rw [Option.getD_some]
  omega

theorem totalBytes_take_le (fits : db.BlobsFit) {req : DeltaReq} (small : req.limit < 2 ^ 32) :
    totalBytes ((req.rows db).take req.limit) ≤ usizeMax := by
  have each : ∀ size ∈ ((req.rows db).take req.limit).map fun row => row.objectBytes.length,
      size ≤ 2 ^ 31 := by
    intro _ member
    obtain ⟨_, taken, rfl⟩ := mem_map.mp member
    obtain ⟨_, filtered, rfl⟩ := mem_map.mp (mem_of_mem_take taken)
    have found := mem_toList_iff_getElem?_eq_some.mp (mem_filter.mp filtered).1
    exact Nat.le_of_lt (fits _ _ found)
  have sum := sum_le_card_nsmul _ _ each
  rw [length_map, Nat.nsmul_eq_mul] at sum
  have count : ((req.rows db).take req.limit).length ≤ req.limit := length_take_le _ _
  have product : ((req.rows db).take req.limit).length * 2 ^ 31 ≤ 2 ^ 32 * 2 ^ 31 :=
    Nat.mul_le_mul_right _ (by omega)
  unfold totalBytes usizeMax
  omega

section Follow

variable {db : Db} {limits : DeltaLimits} {auth : AuthCtx} {now : Int64}

/-- The pages of a client that follows the cursors are the visible rows, cut. -/
theorem followDelta_complete (limits : DeltaLimits) (auth : AuthCtx) (now : Int64)
    (fits : db.BlobsFit) (fuel : Nat) (q : DeltaQuery)
    (enough : ((q.request limits auth now).rows db).length < fuel) :
    ∃ pages, followDelta (fun q => ((delta limits auth now q).runAlone db).2) fuel q = some pages ∧
      pages.flatMap DeltaPage.rows = (q.request limits auth now).rows db ∧
      ∀ page ∈ pages, page.rows.length ≤ limits.clamp q.limit ∧
        (totalBytes page.rows ≤ limits.maxPageBytes ∨ page.rows.length ≤ 1) := by
  induction fuel generalizing q with
  | zero => exact absurd enough (Nat.not_lt_zero _)
  | succ _ ih =>
    obtain ⟨page, ran, isPage⟩ : ∃ page, (delta limits auth now q).runAlone db = (db, .ok page) ∧
        PageOf (q.request limits auth now) db page := by
      obtain ⟨positive, _, -⟩ := limits.clamp_bounds q.limit
      have bounded := limits.maxPageSize.toNat_lt
      exact deltaPage_pageOf positive (totalBytes_take_le fits (by
        change limits.clamp q.limit < _
        omega))
    have within := And.intro isPage.limit isPage.bytes
    unfold followDelta
    rw [ran]
    dsimp only
    by_cases more : page.hasMore = true
    · have shorter := isPage.more.mp more
      have nonempty : page.rows ≠ [] := isPage.progress (ne_nil_of_length_pos (by omega))
      have length := length_pos_iff.mpr nonempty
      have onward : DeltaQuery.request limits auth now { q with cursor := some page.nextCursor } =
          (q.request limits auth now).after page.nextCursor := by
        simp [DeltaQuery.request, DeltaReq.after]
      have rest := isPage.rest
      rw [← onward] at rest
      obtain ⟨pages, followed, all, bounds⟩ :=
        ih { q with cursor := some page.nextCursor } (by rw [rest, length_drop]; omega)
      refine ⟨page :: pages, ?_, ?_, ?_⟩
      · rw [if_pos more, followed, map_some]
      · rw [flatMap_cons, all, rest]
        exact (congrArg (· ++ _) isPage.rows).trans (take_append_drop _ _)
      · intro other member
        rcases mem_cons.mp member with rfl | later
        · exact within
        · exact bounds other later
    · have all : (((q.request limits auth now).rows db)).length ≤ page.rows.length :=
        Nat.not_lt.mp (mt isPage.more.mpr more)
      refine ⟨[page], if_neg more, ?_, ?_⟩
      · rw [flatMap_cons, flatMap_nil, append_nil, isPage.rows]
        exact take_of_length_le all
      · intro _ member
        rw [mem_singleton.mp member]
        exact within

end Follow

/-- A client that follows the pages gets each row it may see once and in order, in finitely many
requests; a change of visibility meanwhile loses no row visible throughout. -/
theorem delta_pages_complete {db : Db} (fits : db.BlobsFit) (limits : DeltaLimits) (auth : AuthCtx)
    (now : Int64) (q : DeltaQuery) :
    (∃ fuel pages,
      followDelta (fun q => ((delta limits auth now q).runAlone db).2) fuel q = some pages ∧
      pages.flatMap DeltaPage.rows = (q.request limits auth now).rows db ∧
      (pages.flatMap DeltaPage.rows).Pairwise (fun a b => a.serverSeq < b.serverSeq) ∧
      ∀ page ∈ pages, page.rows.length ≤ limits.clamp q.limit ∧
        (∀ n, q.limit = some n → 1 ≤ n → (page.rows.length : Int) ≤ n) ∧
        (totalBytes page.rows ≤ limits.maxPageBytes ∨ page.rows.length ≤ 1)) ∧
    ∀ req planned read plan, planPage req planned = some plan →
      (∀ row ∈ req.rows planned, row ∈ req.rows read →
        row.serverSeq ≤ (readPage req plan read).nextCursor → row ∈ (readPage req plan read).rows) ∧
      ((readPage req plan read).nextCursor < plan.upto → (readPage req plan read).hasMore = true) := by
  constructor
  · obtain ⟨pages, followed, all, bounds⟩ := followDelta_complete limits auth now
      fits _ q (Nat.lt_succ_self _)
    refine ⟨_, pages, followed, all, all ▸ visibleRows_ordered, fun page member => ?_⟩
    obtain ⟨limit, bytes⟩ := bounds page member
    refine ⟨limit, fun n isLimit least => ?_, bytes⟩
    have clamped := (limits.clamp_bounds q.limit).2.2 n isLimit least
    omega
  · intro req _ read plan isPlan
    refine ⟨fun row _ visible upto => readPage_complete isPlan visible upto, fun short => ?_⟩
    change (plan.more || decide ((readPage req plan read).nextCursor < plan.upto)) = true
    simp [short]

/-- A log of three audit objects, pages of two rows and three bytes. -/
def Sample.auditLog : Db :=
  let row (bytes : Bytes) : ObjectRow :=
    { objectTag := 5, objectBytes := bytes, vaultId := none, itemId := none, memberPubkey := none,
      objVersion := none, keyEpoch := none, tombstone := none, itemType := none, syncTarget := none,
      cachePolicy := none, role := none, authorPubkey := none, receivedAt := 0 }
  { objects := ((∅ : Table Nat ObjectRow).insert 1 (row [1, 2])).insert 2 (row [3, 4]) |>.insert 4
      (row [5]) }

def Sample.deltaLimits : DeltaLimits :=
  { pageSize := 2, maxPageSize := 2, maxPageBytes := 3, positive := by decide }

open UniSsh.Server.Sample

/-- Three audit entries, read in two pages. -/
theorem delta_pages_complete_audit :
    let q : DeltaQuery := { cursor := none, limit := none, vault := none }
    let auth : AuthCtx := { accountId := [1], deviceEd25519 := [2] }
    (followDelta (fun q => ((delta deltaLimits auth 0 q).runAlone auditLog).2) 3 q).map
      (List.map fun page => page.rows.map DeltaRow.serverSeq) = some [[1], [2, 4]] ∧
    ∃ fuel pages, followDelta (fun q => ((delta deltaLimits auth 0 q).runAlone auditLog).2) fuel q =
        some pages ∧
      pages.flatMap DeltaPage.rows = (q.request deltaLimits auth 0).rows auditLog := by
  have fits : auditLog.BlobsFit := by
    intro _ _ found
    have listed := mem_toList_iff_getElem?_eq_some.mpr found
    have all : ∀ entry ∈ auditLog.objects.toList,
        entry.2.objectBytes.length < blobLimit := by decide
    exact all _ listed
  refine ⟨rfl, ?_⟩
  obtain ⟨fuel, pages, followed, all, -⟩ := (delta_pages_complete fits deltaLimits
    { accountId := [1], deviceEd25519 := [2] } 0 { cursor := none, limit := none, vault := none }).1
  exact ⟨fuel, pages, followed, all⟩

end UniSsh.Server
