import UniSsh.Base.Effect
import Mathlib.Data.List.Range

/-!
# Chains of verified links

Link `n + 1` is verified against the result of link `n`. A walk depends on the links up to its
target only (`walk_congr`) and has passed each of them (`walk_ok_of_le`).
-/

namespace UniSsh

open List

variable {α ε : Type}

/-- The result of the first `n` links, `next` verifying each against the one before. -/
def walk (next : Option α → Nat → Except ε α) : Nat → Except ε (Option α)
  | 0 => .ok none
  | n + 1 => do
    let prev ← walk next n
    let link ← next prev (n + 1)
    .ok (some link)

variable {next : Option α → Nat → Except ε α} {n : Nat}

theorem walk_succ_eq_ok (reached : walk next (n + 1) = .ok result) :
    ∃ prev link, walk next n = .ok prev ∧ next prev (n + 1) = .ok link ∧ result = some link := by
  obtain ⟨prev, before, rest⟩ := bind_eq_ok.mp reached
  obtain ⟨link, last, built⟩ := bind_eq_ok.mp rest
  exact ⟨prev, link, before, last, (Except.ok.inj built).symm⟩

theorem walk_succ {prev : Option α} (before : walk next n = .ok prev)
    (linked : next prev (n + 1) = .ok link) : walk next (n + 1) = .ok (some link) := by
  simp only [walk, before, linked, ok_bind]

/-- Walks that agree on the links up to the target agree. -/
theorem walk_congr {next' : Option α → Nat → Except ε α}
    (same : ∀ k, 1 ≤ k → k ≤ n → ∀ prev, next prev k = next' prev k) :
    walk next n = walk next' n := by
  induction n with
  | zero => rfl
  | succ n ih =>
    have before := ih fun k first within => same k first (by omega)
    have last := same (n + 1) (by omega) (by omega)
    simp only [walk, before, last]

theorem walk_ok_of_le (reached : walk next n = .ok result) (within : k ≤ n) :
    ∃ earlier, walk next k = .ok earlier := by
  induction n generalizing result with
  | zero =>
    obtain rfl : k = 0 := by omega
    exact ⟨result, reached⟩
  | succ n ih =>
    by_cases last : k = n + 1
    · exact ⟨result, last ▸ reached⟩
    · obtain ⟨_, _, before, -, -⟩ := walk_succ_eq_ok reached
      exact ih before (by omega)

theorem foldlM_range'_eq_walk (next : Option α → Nat → Except ε α) (n : Nat) :
    (range' 1 n).foldlM (fun prev k => some <$> next prev k) none = walk next n := by
  induction n with
  | zero => rfl
  | succ n ih =>
    rw [range'_concat, foldlM_append, ih]
    simp only [Nat.one_mul, Nat.add_comm 1 n, foldlM_cons, foldlM_nil, walk]
    cases walk next n with
    | error => rfl
    | ok prev =>
      simp only [ok_bind]
      cases next prev (n + 1) <;> rfl

/-! ## The links a walk looks at -/

/-- How many links a walk to `n` looks at: it stops after the first one that fails. -/
def visited (next : Option α → Nat → Except ε α) : Nat → Nat
  | 0 => 0
  | n + 1 =>
    match walk next n with
    | .ok _ => n + 1
    | .error _ => visited next n

theorem visited_le (next : Option α → Nat → Except ε α) (n : Nat) : visited next n ≤ n := by
  induction n with
  | zero => exact le_rfl
  | succ n ih =>
    rw [visited]
    split
    · exact le_rfl
    · exact ih.trans n.le_succ

/-- A walk does not look behind a link that cannot be verified. -/
theorem visited_le_of_broken (broken : ∀ prev link, next prev (m + 1) ≠ .ok link) (n : Nat) :
    visited next n ≤ m + 1 := by
  induction n with
  | zero => exact Nat.zero_le _
  | succ _ ih =>
    rw [visited]
    split
    · next reached =>
      by_contra beyond
      obtain ⟨_, before⟩ := walk_ok_of_le reached (k := m + 1) (by omega)
      obtain ⟨prev, link, -, linked, -⟩ := walk_succ_eq_ok before
      exact broken prev link linked
    · exact ih

end UniSsh
