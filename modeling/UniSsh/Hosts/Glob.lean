import Mathlib.Data.List.Infix

/-!
# Host patterns of an ssh config

`glob_match` goes back to its last star only. A position is what follows it, and each look at a
pair of positions costs one unit of fuel.
-/

namespace UniSsh.SshConfig

/-- Both loops of `glob_match`; `star` holds what follows the last star, and the text at that
moment. -/
def globLoop : Nat → List Char → List Char → Option (List Char × List Char) → Option Bool
  | 0, _, _, _ => none
  | fuel + 1, p, [], star =>
    -- the remaining tail of the pattern must consist only of stars
    if p.head? = some '*' then globLoop fuel p.tail [] star else some p.isEmpty
  | fuel + 1, p, tc :: t, star =>
    if p.head?.any fun c => c == '?' || c == tc then globLoop fuel p.tail t star
    else if p.head? = some '*' then globLoop fuel p.tail (tc :: t) (some (p.tail, tc :: t))
    else match star with
      | some (q, u) => globLoop fuel q u.tail (some (q, u.tail))
      | none => some false

/-- The pairs of a text and a pattern position. -/
def looks (pattern text : String) : Nat :=
  (text.toList.length + 1) * (pattern.toList.length + 1)

def globMatch (pattern text : String) : Bool :=
  (globLoop (looks pattern text) pattern.toList text.toList none).getD false

/-- The texts a pattern stands for. -/
def InLanguage : List Char → List Char → Prop
  | [], t => t = []
  | c :: p, t =>
    if c = '*' then ∃ u v, t = u ++ v ∧ InLanguage p v
    else ∃ d v, t = d :: v ∧ (c = '?' ∨ c = d) ∧ InLanguage p v

/-- The texts `glob_match` reads: a star of the pattern at a star of the text takes just that
character. -/
def Reads : List Char → List Char → Prop
  | [], t => t = []
  | c :: p, t =>
    if c = '*' ∧ t.head? ≠ some '*' then ∃ v, v <:+ t ∧ Reads p v
    else ∃ d v, t = d :: v ∧ (c = '?' ∨ c = d) ∧ Reads p v

variable {p q t u v : List Char} {star : Option (List Char × List Char)}

theorem inLanguage_star : InLanguage ('*' :: p) t ↔ ∃ v, v <:+ t ∧ InLanguage p v := by
  constructor
  · rintro ⟨u, v, rfl, inside⟩
    exact ⟨v, ⟨u, rfl⟩, inside⟩
  · rintro ⟨v, ⟨u, rfl⟩, inside⟩
    exact ⟨u, v, rfl, inside⟩

theorem reads_star (other : t.head? ≠ some '*') :
    Reads ('*' :: p) t ↔ ∃ v, v <:+ t ∧ Reads p v := by
  rw [Reads, if_pos ⟨rfl, other⟩]

/-- A pattern character that fits the text character at its place takes it. -/
theorem reads_cons (fits : c = '?' ∨ c = tc) : Reads (c :: p) (tc :: t) ↔ Reads p t := by
  have taken : ¬ (c = '*' ∧ (tc :: t).head? ≠ some '*') := by
    rintro ⟨rfl, other⟩
    rcases fits with fits | rfl
    · cases fits
    · exact other rfl
  rw [Reads, if_neg taken]
  constructor
  · rintro ⟨_, _, same, -, reads⟩
    cases same
    exact reads
  · intro reads
    exact ⟨tc, t, rfl, fits, reads⟩

/-- Whatever a pattern reads, what follows its first character reads an end of it. -/
theorem Reads.tail (reads : Reads (c :: p) v) : ∃ v', v' <:+ v ∧ Reads p v' := by
  unfold Reads at reads
  split at reads
  · exact reads
  · obtain ⟨d, v', rfl, -, reads⟩ := reads
    exact ⟨v', List.suffix_cons d v', reads⟩

theorem Reads.inLanguage (reads : Reads p t) : InLanguage p t := by
  induction p generalizing t with
  | nil => exact reads
  | cons c p ih =>
    by_cases isStar : c = '*'
    · subst isStar
      obtain ⟨v, ends, reads⟩ := reads.tail
      exact inLanguage_star.mpr ⟨v, ends, ih reads⟩
    · rw [Reads, if_neg fun both => isStar both.1] at reads
      rw [InLanguage, if_neg isStar]
      obtain ⟨d, v, same, fits, reads⟩ := reads
      exact ⟨d, v, same, fits, ih reads⟩

theorem InLanguage.reads (unstarred : '*' ∉ p ∨ '*' ∉ t) (inside : InLanguage p t) : Reads p t := by
  induction p generalizing t with
  | nil => exact inside
  | cons c p ih =>
    by_cases isStar : c = '*'
    · subst isStar
      have plain : '*' ∉ t := unstarred.resolve_left fun absent => absent List.mem_cons_self
      obtain ⟨v, ends, inside⟩ := inLanguage_star.mp inside
      refine (reads_star fun first => plain (List.mem_of_mem_head? first)).mpr ⟨v, ends, ?_⟩
      exact ih (.inr fun mem => plain (ends.subset mem)) inside
    · rw [InLanguage, if_neg isStar] at inside
      rw [Reads, if_neg fun both => isStar both.1]
      obtain ⟨d, v, rfl, fits, inside⟩ := inside
      refine ⟨d, v, rfl, fits, ih ?_ inside⟩
      exact unstarred.imp (mt (List.mem_cons_of_mem c)) (mt (List.mem_cons_of_mem d))

/-- From the last star the loops have come to `p` and `t`, and lose nothing by ending the star
there. -/
structure Level (q u p t : List Char) : Prop where
  pattern : p <:+ q
  text : t <:+ u
  same : Reads q u ↔ Reads p t
  later : ∀ v, v <:+ u → Reads q v → ∃ v', v' <:+ t ∧ Reads p v'

theorem Level.refl (p t : List Char) : Level p t p t :=
  ⟨List.suffix_refl p, List.suffix_refl t, .rfl, fun v ends reads => ⟨v, ends, reads⟩⟩

theorem Level.advance (level : Level q u (c :: p) (tc :: t)) (fits : c = '?' ∨ c = tc) :
    Level q u p t where
  pattern := (List.suffix_cons c p).trans level.pattern
  text := (List.suffix_cons tc t).trans level.text
  same := level.same.trans (reads_cons fits)
  later v ends reads := by
    obtain ⟨v, ends, reads⟩ := level.later v ends reads
    rcases List.suffix_cons_iff.mp ends with rfl | ends
    · exact ⟨t, List.suffix_refl t, (reads_cons fits).mp reads⟩
    · obtain ⟨v', shorter, reads⟩ := reads.tail
      exact ⟨v', shorter.trans ends, reads⟩

theorem globLoop_ended (enough : p.length < fuel) :
    ∃ b, globLoop fuel p [] star = some b ∧ (b = true ↔ Reads p []) := by
  induction p generalizing fuel with
  | nil =>
    obtain ⟨fuel, rfl⟩ := Nat.exists_eq_add_of_lt enough
    exact ⟨true, rfl, iff_of_true rfl rfl⟩
  | cons c p ih =>
    obtain ⟨fuel, rfl⟩ := Nat.exists_eq_add_of_lt enough
    by_cases isStar : c = '*'
    · subst isStar
      obtain ⟨b, ran, reads⟩ := ih (Nat.lt_add_right fuel (Nat.lt_succ_self _))
      refine ⟨b, ran, reads.trans ?_⟩
      rw [reads_star (by decide)]
      simp
    · refine ⟨false, if_neg fun same => isStar (Option.some.inj same), ?_⟩
      simp [Reads, isStar]

/-- Whether the pattern, or after a star what follows the star, reads the text. -/
def Answer (star : Option (List Char × List Char)) (q u : List Char) : Prop :=
  if star.isSome then ∃ v, v <:+ u ∧ Reads q v else Reads q u

/-- From every state the loops answer for the pattern from the last star on. -/
theorem globLoop_run (last : star = none ∨ star = some (q, u)) (level : Level q u p t)
    (enough : u.length * (q.length + 1) + p.length < fuel) :
    ∃ b, globLoop fuel p t star = some b ∧ (b = true ↔ Answer star q u) := by
  induction fuel generalizing p q t u star with
  | zero => omega
  | succ fuel ih =>
    have settled (absorbs : (∃ v, v <:+ t ∧ Reads p v) → Reads p t) :
        Reads p t ↔ Answer star q u := by
      rcases last with rfl | rfl
      · exact level.same.symm
      · constructor
        · intro reads
          exact ⟨u, List.suffix_refl u, level.same.mpr reads⟩
        · rintro ⟨v, ends, reads⟩
          exact absorbs (level.later v ends reads)
    cases t with
    | nil =>
      obtain ⟨b, ran, decides⟩ := globLoop_ended (Nat.lt_of_le_of_lt (Nat.le_add_left _ _) enough)
      refine ⟨b, ran, decides.trans (settled ?_)⟩
      rintro ⟨v, ends, reads⟩
      rwa [List.suffix_nil.mp ends] at reads
    | cons tc t =>
      unfold globLoop
      by_cases fits : (p.head?.any fun c => c == '?' || c == tc) = true
      · obtain _ | ⟨c, p⟩ := p
        · cases fits
        rw [if_pos fits]
        exact ih last (level.advance (by simpa using fits)) (Nat.lt_of_succ_lt_succ enough)
      rw [if_neg fits]
      by_cases isStar : p.head? = some '*'
      · -- A new star: from here on it is the one to go back to.
        obtain ⟨p, rfl⟩ := List.head?_eq_some_iff.mp isStar
        have other : (tc :: t).head? ≠ some '*' := by
          intro same
          obtain rfl : tc = '*' := Option.some.inj same
          exact fits rfl
        have cheaper : (tc :: t).length * (p.length + 1) ≤ u.length * (q.length + 1) :=
          Nat.mul_le_mul level.text.length_le (Nat.le_succ_of_le level.pattern.length_le)
        obtain ⟨b, ran, decides⟩ := ih (.inr rfl) (.refl p (tc :: t)) (by
          rw [List.length_cons] at enough
          omega)
        rw [if_pos isStar]
        refine ⟨b, ran, decides.trans ((reads_star other).symm.trans (settled ?_))⟩
        rintro ⟨v, ends, reads⟩
        obtain ⟨v', shorter, reads⟩ := reads.tail
        exact (reads_star other).mpr ⟨v', shorter.trans ends, reads⟩
      have mismatch : ¬ Reads p (tc :: t) := by
        cases p with
        | nil => exact List.cons_ne_nil _ _
        | cons c p =>
          rw [Reads, if_neg fun both => isStar (congrArg some both.1)]
          rintro ⟨_, _, same, agree, -⟩
          cases same
          exact fits (by simpa using agree)
      have missed : ¬ Reads q u := mt level.same.mp mismatch
      rw [if_neg isStar]
      rcases last with rfl | rfl
      · exact ⟨false, rfl, iff_of_false Bool.false_ne_true missed⟩
      · -- Back to the last star, which takes one character more.
        obtain _ | ⟨c, u⟩ := u
        · cases List.suffix_nil.mp level.text
        obtain ⟨b, ran, decides⟩ := ih (.inr rfl) (.refl q u) (by
          rw [List.length_cons, Nat.succ_mul] at enough
          omega)
        refine ⟨b, ran, decides.trans ?_⟩
        simp [Answer, List.suffix_cons_iff, missed]

/-- `glob_match` ends and reads only texts of the language. It reads all of them exactly where a
text is also read with stars taking stars: so where pattern or text has no star. -/
theorem globMatch_exact (pattern text : String) :
    globLoop (looks pattern text) pattern.toList text.toList none =
        some (globMatch pattern text) ∧
      (globMatch pattern text = true → InLanguage pattern.toList text.toList) ∧
      ((globMatch pattern text = true ↔ InLanguage pattern.toList text.toList) ↔
        (InLanguage pattern.toList text.toList → Reads pattern.toList text.toList)) ∧
      ('*' ∉ pattern.toList ∨ '*' ∉ text.toList →
        (globMatch pattern text = true ↔ InLanguage pattern.toList text.toList)) := by
  have enough : text.toList.length * (pattern.toList.length + 1) + pattern.toList.length <
      looks pattern text := by
    rw [looks, Nat.succ_mul]
    omega
  obtain ⟨b, ran, reads⟩ := globLoop_run (.inl rfl) (.refl _ _) enough
  have answer : globMatch pattern text = b := by rw [globMatch, ran]; rfl
  have reads : b = true ↔ Reads pattern.toList text.toList := reads
  rw [answer, reads]
  refine ⟨ran, Reads.inLanguage, ?_, fun unstarred => ⟨Reads.inLanguage, InLanguage.reads unstarred⟩⟩
  exact ⟨Iff.mpr, fun exact => ⟨Reads.inLanguage, exact⟩⟩

/-- A pattern without a star at a text with one. -/
theorem globMatch_exact_question :
    globMatch "?a" "*a" = true ↔ InLanguage "?a".toList "*a".toList :=
  (globMatch_exact "?a" "*a").2.2.2 (.inl (by decide))

/-- A star in the text is taken for the star of the pattern. -/
theorem globMatch_literal_star :
    globMatch "*" "*a" = false ∧ InLanguage "*".toList "*a".toList :=
  ⟨by decide, "*a".toList, [], rfl, rfl⟩

end UniSsh.SshConfig
