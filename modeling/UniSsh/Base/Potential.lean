import Mathlib.Data.Nat.Basic
import Mathlib.Tactic.Common

/-!
# Potentials

A quantity that no step raises and every active step lowers bounds the number of active steps.
-/

namespace UniSsh

variable {potential : Nat → Nat} {active : Nat → Prop} [DecidablePred active]

/-- The active steps among the first `n` use up the potential they lower. -/
theorem countP_active_le (never : ∀ i < n, potential (i + 1) ≤ potential i)
    (lowers : ∀ i < n, active i → potential (i + 1) < potential i) :
    (List.range n).countP active + potential n ≤ potential 0 := by
  induction n with
  | zero => simp
  | succ n ih =>
    have before := ih (fun i below => never i (Nat.lt_succ_of_lt below))
      fun i below => lowers i (Nat.lt_succ_of_lt below)
    have last := never n (Nat.lt_succ_self n)
    rw [List.range_succ, List.countP_append, List.countP_singleton]
    by_cases here : active n
    · have lower := lowers n (Nat.lt_succ_self n) here
      simp only [here, decide_true, if_true]
      omega
    · simp only [here, decide_false, Bool.false_eq_true, if_false]
      omega

/-- A run without end is inactive from some point on. -/
theorem eventually_inactive (never : ∀ i, potential (i + 1) ≤ potential i)
    (lowers : ∀ i, active i → potential (i + 1) < potential i) :
    ∃ start, ∀ i, start ≤ i → ¬ active i := by
  induction value : potential 0 using Nat.strongRecOn generalizing potential active with
  | ind p ih =>
    by_cases quiet : ∀ i, ¬ active i
    · exact ⟨0, fun i _ => quiet i⟩
    · obtain ⟨first, here⟩ : ∃ i, active i := by
        by_contra none
        exact quiet fun i here => none ⟨i, here⟩
      have reached := countP_active_le (n := first) (fun i _ => never i) fun i _ => lowers i
      have lower := lowers first here
      obtain ⟨start, rest⟩ := @ih (potential (first + 1)) (by omega)
        (fun i => potential (first + 1 + i)) (fun i => active (first + 1 + i)) _
        (fun i => never (first + 1 + i)) (fun i => lowers (first + 1 + i)) rfl
      refine ⟨first + 1 + start, ?_⟩
      intro i after
      obtain ⟨j, rfl⟩ := Nat.exists_eq_add_of_le (Nat.le_trans (Nat.le_add_right _ _) after)
      exact rest j (by omega)

end UniSsh
