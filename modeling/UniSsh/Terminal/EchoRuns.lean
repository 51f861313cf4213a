import UniSsh.Terminal.EchoMask
import Mathlib.Data.List.Infix

/-!
# Output through the mask

What the mask forwards does not depend on the chunks, unless a possible start stays undecided
beyond what is held. The secret shows only from within a skipped sequence or at an undecided end.
-/

namespace UniSsh.Terminal

open List

/-- One star for a character; a continuation byte adds none. -/
def star (b : UInt8) : Bytes := if b &&& 0xc0 ≠ 0x80 then [0x2a] else []

/-- The segment spells the secret, with something to skip between its bytes, and is shown starred. -/
inductive Spells : (secret seg shown : Bytes) → Prop where
  | nil : Spells [] [] []
  | char {secret seg out} (b : UInt8) : Spells secret seg out →
      Spells (b :: secret) (b :: seg) (star b ++ out)
  | skip {want secret seg out pre} (rest : Bytes) : skipAt (pre ++ rest) = .len pre.length →
      pre ≠ [] → Spells (want :: secret) seg out → Spells (want :: secret) (pre ++ seg) (pre ++ out)

/-- What is shown and held back: a byte where no occurrence begins is kept, a whole occurrence is
starred, and an end that may become one is held. -/
inductive Masks (secret : Bytes) : (data out held : Bytes) → Prop where
  | hold {data} : attempt data secret = .cut → data.length ≤ holdMax → Masks secret data [] data
  | keep {b rest out held} : attempt (b :: rest) secret = .miss → Masks secret rest out held →
      Masks secret (b :: rest) (b :: out) held
  | star {seg rest out held ps} : attempt (seg ++ rest) secret = .full ps →
      seg.length = ps.getLast?.getD 0 + 1 → Spells secret seg (starred (ps.zip secret) 0 seg) →
      Masks secret rest out held →
      Masks secret (seg ++ rest) (starred (ps.zip secret) 0 seg ++ out) held

/-- What is shown of a starred segment from a place inside a sequence that it skips. -/
inductive SkippedTail : (secret seg shown tail : Bytes) → Prop where
  | here {want secret seg out pre tail} (rest : Bytes) :
      skipAt (pre ++ rest) = .len pre.length → tail <:+ pre → tail ≠ [] →
      Spells (want :: secret) seg out →
      SkippedTail (want :: secret) (pre ++ seg) (pre ++ out) (tail ++ out)
  | char {secret seg out tail} (b : UInt8) : SkippedTail secret seg out tail →
      SkippedTail (b :: secret) (b :: seg) (star b ++ out) tail
  | skip {want secret seg out pre tail} : SkippedTail (want :: secret) seg out tail →
      SkippedTail (want :: secret) (pre ++ seg) (pre ++ out) tail

/-- No possible start of the secret stays undecided for longer than the mask holds back. -/
def Decided (secret stream : Bytes) : Prop :=
  ∀ data, data <:+: stream → attempt data secret = .cut → data.length ≤ holdMax

/-- Chunks of output through the mask, each at its time. -/
def feedAll : EchoMask → List (Bytes × Nat) → EchoMask × Bytes
  | mask, [] => (mask, [])
  | mask, (chunk, now) :: chunks =>
    let (mask', masked) := mask.feed chunk now
    let (last, out) := feedAll mask' chunks
    (last, masked.out ++ out)

/-- A fresh mask, and chunks that are fed to it before its deadline and keep nothing undecided. -/
structure Undisturbed (mask : EchoMask) (chunks : List (Bytes × Nat)) : Prop where
  some : mask.secret ≠ []
  fresh : mask.held = []
  timely : ∀ c ∈ chunks, c.2 < mask.deadline
  decided : Decided mask.secret (chunks.flatMap Prod.fst)

/-- What is forwarded, with what is still held at the end. -/
def forwarded (mask : EchoMask) (chunks : List (Bytes × Nat)) : Bytes :=
  (feedAll mask chunks).2 ++ (feedAll mask chunks).1.held

variable {data more secret seg out out' held held' rest pre tail text : Bytes} {i j fuel fuel' : Nat}
  {ps : List Nat} {seen : Bool}

/-! ## One try under more output -/

theorem skipParams_append (known : skipParams i data ≠ .incomplete) :
    skipParams i (data ++ more) = skipParams i data ∧
      ∀ n, skipParams i data = .len n → n ≤ i + data.length + 2 ∧ 0 < n := by
  fun_induction skipParams i data with
  | case1 => exact absurd rfl known
  | case2 | case3 | case4 => grind [skipParams]

theorem skipTitle_append (known : skipTitle i data ≠ .incomplete) :
    skipTitle i (data ++ more) = skipTitle i data ∧
      ∀ n, skipTitle i data = .len n → n ≤ i + data.length + 2 ∧ 0 < n := by
  fun_induction skipTitle i data with
  | case1 | case3 => exact absurd rfl known
  | case4 | case5 => grind [skipTitle]
  | case2 | case6 =>
    rw [cons_append, skipTitle.eq_def]
    grind

/-- What was skipped, or not, before the end of the output stays so. -/
theorem skipAt_append (more : Bytes) (some : data ≠ []) (known : skipAt data ≠ .incomplete) :
    skipAt (data ++ more) = skipAt data ∧ ∀ n, skipAt data = .len n → n ≤ data.length ∧ 0 < n := by
  fun_cases skipAt data with
  | case1 => exact absurd rfl some
  | case3 => exact absurd rfl known
  | case2 | case7 =>
    rw [cons_append, skipAt.eq_def]
    grind
  | case4 | case5 | case6 => grind [skipAt, skipParams_append, skipTitle_append, length_cons]

theorem readSecret_append (fits : data.length < fuel) (fits' : (data ++ more).length < fuel')
    (known : readSecret fuel secret j data ps ≠ .cut) :
    readSecret fuel' secret j (data ++ more) ps = readSecret fuel secret j data ps := by
  fun_induction readSecret fuel secret j data ps generalizing fuel' with
  | case1 => cases fits
  | case2 => cases fuel' <;> [cases fits'; rfl]
  | case4 fuel secret j b rest ps ih =>
    cases fuel' with
    | zero => cases fits'
    | succ fuel' =>
      simp only [cons_append, readSecret, if_true]
      exact ih (Nat.lt_of_succ_lt_succ fits) (Nat.lt_of_succ_lt_succ fits') known
  | case5 fuel want secret j b rest ne =>
    cases fuel' <;> [cases fits'; simp [readSecret, ne]]
  | case6 fuel want secret j b rest ps ne begun n skipped ih =>
    cases fuel' with
    | zero => cases fits'
    | succ fuel' =>
      obtain ⟨same, bound⟩ := skipAt_append more (cons_ne_nil b rest) (by simp [skipped])
      obtain ⟨short, some⟩ := bound n skipped
      rw [skipped, cons_append] at same
      simp only [cons_append, readSecret, if_neg ne, if_neg begun, same]
      rw [← cons_append, drop_append_of_le_length short]
      refine ih ?_ ?_ known <;> grind
  | case8 fuel want secret j b rest ps ne begun skipped =>
    obtain ⟨same, -⟩ := skipAt_append more (cons_ne_nil b rest) (by simp [skipped])
    rw [skipped, cons_append] at same
    cases fuel' <;> [cases fits'; simp [readSecret, ne, begun, same]]
  | _ => exact absurd rfl known

/-- A try that was decided stays so when more output comes. -/
theorem attempt_append (known : attempt data secret ≠ .cut) :
    attempt (data ++ more) secret = attempt data secret := by
  cases data with
  | nil => exact absurd rfl known
  | cons b rest => exact readSecret_append (Nat.lt_succ_self _) (Nat.lt_succ_self _) known

/-! ## Spelled-out occurrences -/

theorem starred_append (later : ∀ p ∈ stars.head?, j + pre.length ≤ p.1) :
    starred stars j (pre ++ rest) = pre ++ starred stars (j + pre.length) rest := by
  induction pre generalizing j with
  | nil => rfl
  | cons b pre ih =>
    have next := @ih (j + 1) (by grind)
    cases stars <;> grind [starred]

theorem readSecret_full : readSecret fuel secret j data ps = .full qs →
    ∃ later seg rest, qs = ps ++ later ∧ data = seg ++ rest ∧ later.length = secret.length ∧
      (∀ p ∈ later.head?, j ≤ p) ∧ (∀ p ∈ later.getLast?, p + 1 = j + seg.length) ∧
        Spells secret seg (starred (later.zip secret) j seg) := by
  fun_induction readSecret fuel secret j data ps with
  | case1 | case3 | case5 | case7 | case8 => exact nofun
  | case2 =>
    rintro ⟨⟩
    exact ⟨[], [], _, by simp, rfl, rfl, nofun, nofun, .nil⟩
  | case4 fuel secret j b rest ps ih =>
    intro read
    obtain ⟨later, seg, rest, rfl, rfl, len, first, last, spells⟩ := ih read
    refine ⟨j :: later, b :: seg, rest, by simp, rfl, by simp [len], by simp, ?_, ?_⟩
    · cases later with
      | nil =>
        obtain rfl := length_eq_zero_iff.mp len.symm
        cases spells
        simp
      | cons => grind
    · rw [zip_cons_cons, starred, if_pos rfl]
      exact .char b spells
  | case6 fuel want secret j b rest ps ne begun n skipped ih =>
    intro read
    obtain ⟨later, seg, tail, rfl, cut, len, first, last, spells⟩ := ih read
    obtain ⟨short, some⟩ :=
      (skipAt_append [] (cons_ne_nil b rest) (by simp [skipped])).2 n skipped
    have whole := (take_append_drop n (b :: rest)).symm
    have size : (take n (b :: rest)).length = n := length_take_of_le short
    obtain ⟨p, later, rfl⟩ := exists_cons_of_length_eq_add_one len
    refine ⟨_, take n (b :: rest) ++ seg, tail, rfl, by grind, len, by grind, by grind, ?_⟩
    have behind : j + (take n (b :: rest)).length ≤ p := size.symm ▸ first p rfl
    rw [starred_append (by simpa using behind), size]
    refine .skip (drop n (b :: rest)) ?_ (by grind) spells
    rw [take_append_drop, skipped, size]

theorem attempt_full (some : secret ≠ []) (tried : attempt data secret = .full ps) :
    ∃ seg rest, data = seg ++ rest ∧ seg.length = ps.getLast?.getD 0 + 1 ∧
      Spells secret seg (starred (ps.zip secret) 0 seg) := by
  cases data with
  | nil => cases tried
  | cons b data =>
    obtain ⟨later, seg, rest, rfl, whole, len, -, last, spells⟩ := readSecret_full tried
    refine ⟨seg, rest, whole, ?_, spells⟩
    cases shown : ps.getLast? with
    | none =>
      rw [getLast?_eq_none_iff.mp shown] at len
      exact absurd (length_eq_zero_iff.mp len.symm) some
    | some p => simpa using (last p shown).symm

/-! ## What a scan shows -/

theorem scan_masks (some : secret ≠ []) (fits : data.length ≤ fuel)
    (decided : ∀ d, d <:+ data → attempt d secret = .cut → d.length ≤ holdMax) :
    Masks secret data (scan secret seen false fuel data).out
      (scan secret seen false fuel data).held := by
  induction fuel generalizing data with
  | zero =>
    cases data with
    | nil => exact .hold rfl (Nat.zero_le _)
    | cons => cases fits
  | succ fuel ih =>
    cases data with
    | nil => exact .hold rfl (Nat.zero_le _)
    | cons b rest =>
      unfold scan
      split
      · next ps tried =>
        obtain ⟨seg, tail, whole, size, spells⟩ := attempt_full some tried
        rw [whole] at tried fits ⊢
        dsimp only
        rw [← size, take_left, drop_left]
        refine .star tried size spells (ih (by grind) fun d inside => decided d ?_)
        exact whole ▸ inside.trans (suffix_append _ _)
      · next tried =>
        have short := decided _ (suffix_refl _) tried
        rw [if_pos (by simpa using short)]
        exact .hold tried short
      · next tried =>
        refine .keep tried (ih (Nat.le_of_succ_le_succ fits) fun d inside => decided d ?_)
        exact inside.trans (suffix_cons _ _)

theorem Masks.eq_scan (masks : Masks secret data out held) (fits : data.length ≤ fuel) :
    (scan secret seen false fuel data).out = out ∧
      (scan secret seen false fuel data).held = held := by
  induction masks generalizing fuel with
  | @hold data tried short =>
    cases data with
    | nil => cases fuel <;> exact ⟨rfl, rfl⟩
    | cons b rest =>
      cases fuel with
      | zero => cases fits
      | succ fuel => simp [scan, tried, show rest.length + 1 ≤ holdMax from short]
  | keep tried _ ih =>
    cases fuel with
    | zero => cases fits
    | succ fuel => simpa [scan, tried, Scanned.show] using ih (Nat.le_of_succ_le_succ fits)
  | @star seg rest out held ps tried size _ _ ih =>
    obtain ⟨b, seg, rfl⟩ := exists_cons_of_length_eq_add_one size
    cases fuel with
    | zero => cases fits
    | succ fuel =>
      obtain ⟨isOut, isHeld⟩ := @ih fuel (by grind)
      rw [cons_append] at tried ⊢
      unfold scan
      simp only [tried]
      rw [← size, ← cons_append, take_left, drop_left]
      exact ⟨congrArg _ isOut, isHeld⟩

/-- What is shown and held is determined by the output. -/
theorem Masks.unique (masks : Masks secret data out held) (masks' : Masks secret data out' held') :
    out = out' ∧ held = held' := by
  obtain ⟨isOut, isHeld⟩ := @Masks.eq_scan _ _ _ _ _ false masks le_rfl
  obtain ⟨isOut', isHeld'⟩ := @Masks.eq_scan _ _ _ _ _ false masks' le_rfl
  exact ⟨isOut.symm.trans isOut', isHeld.symm.trans isHeld'⟩

theorem Masks.append (first : Masks secret data out held)
    (next : Masks secret (held ++ more) out' held') :
    Masks secret (data ++ more) (out ++ out') held' := by
  induction first with
  | hold => exact next
  | keep tried _ ih =>
    exact .keep ((attempt_append (by simp [tried])).trans tried) (ih next)
  | star tried size spells _ ih =>
    rw [append_assoc, append_assoc]
    refine .star ?_ size spells (ih next)
    rw [← append_assoc, attempt_append (by simp [tried]), tried]

theorem Masks.held_suffix (masks : Masks secret data out held) : held <:+ data := by
  induction masks with
  | hold => exact suffix_refl _
  | keep _ _ ih => exact ih.trans (suffix_cons _ _)
  | star _ _ _ _ ih => exact ih.trans (suffix_append _ _)

theorem Masks.held_le (masks : Masks secret data out held) : held.length ≤ holdMax := by
  induction masks with
  | hold _ short => exact short
  | keep _ _ ih | star _ _ _ _ ih => exact ih

theorem Masks.eq_of_unspelled (masks : Masks secret data out held)
    (unspelled : ∀ seg shown, seg <:+: data → ¬ Spells secret seg shown) : out ++ held = data := by
  induction masks with
  | hold => rfl
  | keep _ _ ih =>
    exact congrArg _ (ih fun seg shown inside => unspelled seg shown (infix_cons inside))
  | star _ _ spells => exact absurd spells (unspelled _ _ (prefix_append _ _).isInfix)

/-! ## Chunks -/

variable {mask : EchoMask} {chunks : List (Bytes × Nat)}

theorem feedAll_masks (some : mask.secret ≠ [])
    (timely : ∀ c ∈ chunks, c.2 < mask.deadline) (before : Masks mask.secret data out mask.held)
    (decided : Decided mask.secret (data ++ chunks.flatMap Prod.fst)) :
    Masks mask.secret (data ++ chunks.flatMap Prod.fst) (out ++ (feedAll mask chunks).2)
      (feedAll mask chunks).1.held := by
  induction chunks generalizing mask data out with
  | nil => simpa [feedAll] using before
  | cons c chunks ih =>
    obtain ⟨chunk, now⟩ := c
    obtain ⟨soon, timely⟩ := forall_mem_cons.mp timely
    rw [flatMap_cons, ← append_assoc] at decided ⊢
    have early : decide (mask.deadline ≤ now) = false := decide_eq_false (Nat.not_le.mpr soon)
    have fed : Masks mask.secret (mask.held ++ chunk) (mask.feed chunk now).2.out
        (mask.feed chunk now).1.held := by
      dsimp only [EchoMask.feed]
      rw [early]
      refine scan_masks some le_rfl fun d inside => decided d ?_
      obtain ⟨first, rfl⟩ := before.held_suffix
      rw [append_assoc first]
      exact (inside.trans (suffix_append _ _)).isInfix.trans (prefix_append _ _).isInfix
    have later := @ih _ _ (mask.feed chunk now).1 some timely (before.append fed) decided
    rwa [append_assoc out] at later

theorem Undisturbed.masks (fed : Undisturbed mask chunks) :
    Masks mask.secret (chunks.flatMap Prod.fst) (feedAll mask chunks).2
      (feedAll mask chunks).1.held := by
  have start : Masks mask.secret [] [] mask.held := by
    rw [fed.fresh]
    exact .hold rfl (Nat.zero_le _)
  exact feedAll_masks fed.some fed.timely start fed.decided

theorem Undisturbed.take (fed : Undisturbed mask chunks) (n : Nat) :
    Undisturbed mask (chunks.take n) where
  some := fed.some
  fresh := fed.fresh
  timely c taken := fed.timely c (mem_of_mem_take taken)
  decided d inside :=
    fed.decided d (inside.trans (( take_prefix n chunks).flatMap Prod.fst).isInfix)

/-- However the output is cut, the same is forwarded: its occurrences starred in the order they are
read, with at most `holdMax` bytes held. -/
theorem mask_ignores_boundaries (fed : Undisturbed mask chunks) :
    Masks mask.secret (chunks.flatMap Prod.fst) (feedAll mask chunks).2
        (feedAll mask chunks).1.held ∧
      (∀ other, Undisturbed mask other → other.flatMap Prod.fst = chunks.flatMap Prod.fst →
        forwarded mask other = forwarded mask chunks) ∧
      ((∀ seg shown, seg <:+: chunks.flatMap Prod.fst → ¬ Spells mask.secret seg shown) →
        forwarded mask chunks = chunks.flatMap Prod.fst) ∧
      ∀ n, (feedAll mask (chunks.take n)).1.held.length ≤ holdMax := by
  refine ⟨fed.masks, fun other fed' same => ?_, fed.masks.eq_of_unspelled,
    fun n => (fed.take n).masks.held_le⟩
  obtain ⟨sameOut, sameHeld⟩ := (same ▸ fed'.masks).unique fed.masks
  exact congrArg₂ (· ++ ·) sameOut sameHeld

/-- A mask for the password `ab`. -/
def Sample.abMask : EchoMask :=
  { secret := [0x61, 0x62], deadline := echoWindow, inputSeen := false, held := [] }

theorem Sample.abMask_undisturbed (timely : ∀ c ∈ chunks, c.2 < echoWindow)
    (short : (chunks.flatMap Prod.fst).length ≤ holdMax) : Undisturbed abMask chunks :=
  ⟨by decide, rfl, timely, fun _ inside _ => inside.length_le.trans short⟩

/-- The secret is split over two chunks. -/
theorem mask_ignores_boundaries_split :
    forwarded Sample.abMask [([0x78, 0x61], 0), ([0x62, 0x79], 1)] =
        forwarded Sample.abMask [([0x78, 0x61, 0x62, 0x79], 0)] ∧
      forwarded Sample.abMask [([0x78, 0x61, 0x62, 0x79], 0)] = [0x78, 0x2a, 0x2a, 0x79] := by
  have same := mask_ignores_boundaries
    (@Sample.abMask_undisturbed [([0x78, 0x61, 0x62, 0x79], 0)] (by decide) (by decide))
  exact ⟨same.2.1 _ (Sample.abMask_undisturbed (by decide) (by decide)) rfl, by decide⟩

/-! ## Where the secret is let through -/

def isBreak (b : UInt8) : Bool := b = 0x0d ∨ b = 0x0a

/-- Apart from escapes only a line break is skipped. -/
theorem skipAt_plain (plain : b ≠ 0x1b) :
    skipAt (b :: data) = if isBreak b then .len 1 else .no := by
  rw [skipAt.eq_def]
  simp [plain, isBreak]

theorem SkippedTail.suffix (skipped : SkippedTail secret seg out tail) : tail <:+ out := by
  induction skipped with
  | here _ _ ends =>
    obtain ⟨first, rfl⟩ := ends
    exact ⟨first, (append_assoc _ _ _).symm⟩
  | char _ _ ih | skip _ ih => exact ih.trans (suffix_append _ _)

/-- Without an escape only a line break is skipped. -/
theorem SkippedTail.breaks (skipped : SkippedTail secret seg out tail) (plain : 0x1b ∉ seg) :
    ∃ b rest, tail = b :: rest ∧ isBreak b = true := by
  induction skipped with
  | @here _ _ _ _ pre tail rest skipped ends some =>
    obtain ⟨b, tail, rfl⟩ := exists_cons_of_ne_nil some
    obtain ⟨c, pre, rfl⟩ := exists_cons_of_ne_nil (ends.ne_nil (cons_ne_nil _ _))
    rw [cons_append, skipAt_plain (by grind)] at skipped
    split at skipped
    · next isBreak =>
      cases pre with
      | nil =>
        obtain rfl : b = c := mem_singleton.mp (ends.subset mem_cons_self)
        exact ⟨b, _, rfl, isBreak⟩
      | cons => cases skipped
    · cases skipped
  | char _ _ ih | skip _ ih => exact ih (by grind)

end UniSsh.Terminal
