import Mathlib.Tactic.Common

/-!
# Tables

A relational table as an extensional ordered map from its primary key to its row; a composite key
is ordered column by column.
-/

namespace UniSsh

export Std.ExtTreeMap (mem_toList_iff_getElem?_eq_some getElem?_filter' getElem?_insert_self)

export Option (map_eq_some_iff filter_eq_some_iff map_some)

open List

/-- Composite keys are ordered by their first column, then by their second. -/
instance instOrdPair {α β : Type} [Ord α] [Ord β] : Ord (α × β) := lexOrd

instance instTransOrdPair {α β : Type} [Ord α] [Ord β] [Std.TransOrd α] [Std.TransOrd β] :
    Std.TransOrd (α × β) :=
  inferInstanceAs (Std.TransCmp (compareLex (compareOn Prod.fst) (compareOn Prod.snd)))

instance instLawfulEqOrdPair {α β : Type} [Ord α] [Ord β] [Std.LawfulEqOrd α] [Std.LawfulEqOrd β] :
    Std.LawfulEqOrd (α × β) where
  compare_self {a} := by
    change compareLex (compareOn Prod.fst) (compareOn Prod.snd) a a = .eq
    simp [compareLex, compareOn]
  eq_of_compare {a b} same := by
    change compareLex (compareOn Prod.fst) (compareOn Prod.snd) a b = .eq at same
    simp only [compareLex, compareOn, Ordering.then_eq_eq] at same
    exact Prod.ext (Std.LawfulEqCmp.eq_of_compare same.1) (Std.LawfulEqCmp.eq_of_compare same.2)

/-- A table with primary keys in `K` and rows in `V`. -/
abbrev Table (K V : Type) [Ord K] := Std.ExtTreeMap K V compare

namespace Table

variable {K V : Type} [Ord K] [Std.TransOrd K]

/-- `UPDATE … SET … WHERE`: rewrites the rows that satisfy the condition. -/
def updateWhere (t : Table K V) (cond : K → V → Bool) (set : V → V) : Table K V :=
  t.map fun k row => if cond k row then set row else row

/-- `INSERT … ON CONFLICT DO UPDATE … WHERE excluded.version > version`; gives the version in the
way. -/
def upsertNewer {N : Type} [LT N] [DecidableLT N] (t : Table K V) (k : K) (version : V → N)
    (new : N) (row : Option V → V) : Except N (Table K V) :=
  match t[k]? with
  | some old => if version old < new then .ok (t.insert k (row (some old))) else .error (version old)
  | none => .ok (t.insert k (row none))

variable {t t' : Table K V} {k : K}

theorem upsertNewer_eq_ok {N : Type} [LT N] [DecidableLT N] {version : V → N} {new : N}
    {row : Option V → V} :
    t.upsertNewer k version new row = .ok t' ↔
      (∀ old, t[k]? = some old → version old < new) ∧ t' = t.insert k (row t[k]?) := by
  unfold upsertNewer
  cases found : t[k]? with
  | none => simp [eq_comm]
  | some old =>
    by_cases newer : version old < new
    · simp [newer, eq_comm]
    · simp [newer]

variable [Std.LawfulEqOrd K]

/-- A row is read back under the key it was written to, and under no other. -/
theorem getElem?_insert [DecidableEq K] (t : Table K V) (k a : K) (v : V) :
    (t.insert k v)[a]? = if k = a then some v else t[a]? := by
  simp [Std.ExtTreeMap.getElem?_insert]

@[simp] theorem getElem?_updateWhere (t : Table K V) (cond : K → V → Bool) (set : V → V) (k : K) :
    (t.updateWhere cond set)[k]? = t[k]?.map fun row => if cond k row then set row else row := by
  simp [updateWhere]

variable {v : V}

/-- A row that is found after a write was written, or stands under another key. -/
theorem of_insert [DecidableEq K] (found : (t.insert k v)[a]? = some row) :
    (k = a ∧ v = row) ∨ (k ≠ a ∧ t[a]? = some row) := by
  rw [getElem?_insert] at found
  split at found
  · next same => exact .inl ⟨same, Option.some.inj found⟩
  · next other => exact .inr ⟨other, found⟩

/-- A write under a new key leaves the rows there are. -/
theorem insert_of_free [DecidableEq K] {a : K} (free : t[k]? = none) (found : t[a]? = some row) :
    (t.insert k v)[a]? = some row := by
  rw [getElem?_insert, if_neg]
  · exact found
  · rintro rfl
    exact nomatch free.symm.trans found

/-- Writing the row that is already there changes nothing. -/
theorem insert_getElem? [DecidableEq K] (t : Table K V) (present : t[k]? = some v) :
    t.insert k v = t := by
  apply Std.ExtTreeMap.ext_getElem?
  intro a
  rw [getElem?_insert]
  split
  · next same => rw [← same, present]
  · rfl

/-- A row that is written and then updated under its key. -/
theorem getElem?_insert_updateWhere [DecidableEq K] (t : Table K V) (k : K) (v : V) (set : V → V)
    (a : K) :
    (updateWhere (t.insert k v) (fun b _ => b = k) set)[a]? =
      if a = k then some (set v) else t[a]? := by
  rw [getElem?_updateWhere, getElem?_insert]
  by_cases same : a = k
  · simp [same]
  · rw [if_neg (Ne.symm same), if_neg same]
    cases t[a]? with
    | none => rfl
    | some => simp [same]

theorem getElem?_erase_of_ne (t : Table K V) (other : a ≠ k) : (t.erase k)[a]? = t[a]? := by
  rw [Std.ExtTreeMap.getElem?_erase, if_neg]
  intro same
  exact other (Std.LawfulEqCmp.eq_of_compare same).symm

variable {cond : K → V → Bool}

theorem getElem?_filter_of_kept (t : Table K V) (kept : ∀ row, cond k row = true) :
    (t.filter cond)[k]? = t[k]? := by
  rw [getElem?_filter']
  cases t[k]? with
  | none => rfl
  | some row => simp [kept row]

/-- What is read off the rows of a table, and tells their keys, is read off once. -/
theorem nodup_map_toList {α : Type} (t : Table K V) (cond : K × V → Bool) {f : K × V → α}
    (byKey : ∀ a b, f a = f b → a.1 = b.1) : ((t.toList.filter cond).map f).Nodup := by
  rw [List.Nodup, pairwise_map]
  refine (Std.ExtTreeMap.distinct_keys_toList.filter cond).imp fun differ same => differ ?_
  rw [byKey _ _ same]
  exact Std.ReflCmp.compare_self

/-- Of two rows that a condition picks, one has another key. -/
theorem exists_ne_of_one_lt_countP [DecidableEq K] (t : Table K V) {cond : K × V → Bool}
    (more : 1 < t.toList.countP cond) (k : K) :
    ∃ k' row, t[k']? = some row ∧ cond (k', row) = true ∧ k' ≠ k := by
  have distinct := t.nodup_map_toList cond fun a b (same : a.1 = b.1) => same
  rw [countP_eq_length_filter] at more
  have inTable (entry : K × V) (mem : entry ∈ t.toList.filter cond) :
      t[entry.1]? = some entry.2 ∧ cond entry = true := by
    obtain ⟨listed, chosen⟩ := mem_filter.mp mem
    exact ⟨mem_toList_iff_getElem?_eq_some.mp listed, chosen⟩
  match entries : t.toList.filter cond, more, distinct with
  | a :: b :: rest, _, distinct =>
    obtain ⟨foundA, chosenA⟩ := inTable a (entries ▸ mem_cons_self)
    obtain ⟨foundB, chosenB⟩ := inTable b (entries ▸ mem_cons_of_mem _ mem_cons_self)
    have differ : a.1 ≠ b.1 := fun same => by simp [same] at distinct
    by_cases isA : a.1 = k
    · exact ⟨b.1, b.2, foundB, chosenB, fun isB => differ (isA.trans isB.symm)⟩
    · exact ⟨a.1, a.2, foundA, chosenA, isA⟩

/-! ## Growth of a table -/

/-- Every row of `t` is still in `t'`, as it was or replaced by one `le` relates it to. -/
def Grows (le : V → V → Prop) (t t' : Table K V) : Prop :=
  ∀ (k : K) row, t[k]? = some row → ∃ row', t'[k]? = some row' ∧ le row row'

variable {le : V → V → Prop}

omit [Std.LawfulEqOrd K] in
theorem Grows.refl [Std.Refl le] (t : Table K V) : Grows le t t :=
  fun _ row found => ⟨row, found, Std.Refl.refl row⟩

variable {mid : Table K V} {set : V → V}

omit [Std.LawfulEqOrd K] in
theorem Grows.trans [IsTrans V le] (first : Grows le t mid) (second : Grows le mid t') :
    Grows le t t' := by
  intro k row found
  obtain ⟨between, found', below⟩ := first k row found
  obtain ⟨row', found'', below'⟩ := second k between found'
  exact ⟨row', found'', IsTrans.trans _ _ _ below below'⟩

theorem Grows.insert [DecidableEq K] [Std.Refl le] (above : ∀ old, t[k]? = some old → le old v) :
    Grows le t (t.insert k v) := by
  intro a row found
  rw [getElem?_insert]
  by_cases same : k = a
  · subst same
    exact ⟨v, by simp, above row found⟩
  · exact ⟨row, by simp [same, found], Std.Refl.refl row⟩

theorem Grows.updateWhere [Std.Refl le] (above : ∀ k row, cond k row = true → le row (set row))
    (t : Table K V) : Grows le t (t.updateWhere cond set) := by
  intro k row found
  rw [getElem?_updateWhere, found]
  by_cases chosen : cond k row = true
  · exact ⟨set row, by simp [chosen], above k row chosen⟩
  · exact ⟨row, by simp [chosen], Std.Refl.refl row⟩

/-! ## Tables with the same keys -/

/-- The two tables have the same keys, and `rel` relates their rows key by key. -/
def Pointwise (rel : V → V → Prop) (t t' : Table K V) : Prop :=
  ∀ k : K, Option.Rel rel t[k]? t'[k]?

variable {rel : V → V → Prop}

omit [Std.LawfulEqOrd K] in
theorem Pointwise.refl [Std.Refl rel] (t : Table K V) : Pointwise rel t t := by
  intro k
  cases t[k]? with
  | none => exact .none
  | some row => exact .some (Std.Refl.refl row)

omit [Std.LawfulEqOrd K] in
theorem Pointwise.trans [IsTrans V rel] (first : Pointwise rel t mid)
    (second : Pointwise rel mid t') : Pointwise rel t t' := by
  intro k
  have before := first k
  have after := second k
  generalize t[k]? = row at before ⊢
  generalize mid[k]? = between at before after
  generalize t'[k]? = row' at after ⊢
  cases before with
  | none =>
    cases after
    exact .none
  | some related =>
    cases after with
    | some related' => exact .some (IsTrans.trans _ _ _ related related')

omit [Std.LawfulEqOrd K] in
theorem Pointwise.grows (pointwise : Pointwise rel t t')
    (implies : ∀ row row', rel row row' → le row row') : Grows le t t' := by
  intro k row found
  have related := pointwise k
  rw [found] at related
  cases read : t'[k]? with
  | none =>
    rw [read] at related
    cases related
  | some row' =>
    rw [read] at related
    cases related with
    | some rel => exact ⟨row', rfl, implies row row' rel⟩

omit [Std.LawfulEqOrd K] in
theorem Pointwise.absent (pointwise : Pointwise rel t t') (absent : t[k]? = none) :
    t'[k]? = none := by
  have related := pointwise k
  rw [absent] at related
  generalize t'[k]? = row' at related ⊢
  cases related
  rfl

omit [Std.LawfulEqOrd K] in
theorem Pointwise.mono {rel' : V → V → Prop} (pointwise : Pointwise rel t t')
    (implies : ∀ row row', rel row row' → rel' row row') : Pointwise rel' t t' := by
  intro k
  have related := pointwise k
  generalize t[k]? = row at related ⊢
  generalize t'[k]? = row' at related ⊢
  cases related with
  | none => exact .none
  | some holds => exact .some (implies _ _ holds)

theorem Pointwise.updateWhere [Std.Refl rel]
    (related : ∀ k row, cond k row = true → rel row (set row)) (t : Table K V) :
    Pointwise rel t (t.updateWhere cond set) := by
  intro k
  rw [getElem?_updateWhere]
  cases t[k]? with
  | none => exact .none
  | some row =>
    by_cases chosen : cond k row = true
    · simpa [chosen] using Option.Rel.some (related k row chosen)
    · simpa [chosen] using Option.Rel.some (Std.Refl.refl (r := rel) row)

end Table

end UniSsh
