import Mathlib.Tactic.Common

/-!
# Failing computations on a state

A failure of an `EStateM` computation keeps the writes made so far, unless a `transaction` takes
them back. `Preserves R x` relates the states before and after `x`, however it ends; `ReturnsTo x
s Q` says that `x` does not fail from `s`, and what it leaves.
-/

namespace UniSsh

open List

variable {σ ε α β : Type}

@[simp] theorem ok_bind (a : α) (f : α → Except ε β) :
    ((Except.ok a : Except ε α) >>= f) = f a := rfl

@[simp] theorem error_bind (e : ε) (f : α → Except ε β) :
    ((Except.error e : Except ε α) >>= f) = .error e := rfl

variable {b : β} {a : α} {s s' : σ} {x : Except ε α} {f : α → Except ε β}

/-- A sequence of fallible computations returns when each part does. -/
theorem bind_eq_ok : (x >>= f) = .ok b ↔ ∃ a, x = .ok a ∧ f a = .ok b := by
  cases x <;> simp

/-- To return with `Q` is to return from each part, from the last one with `Q`. -/
theorem exists_bind_ok {Q : β → Prop} :
    (∃ b, (x >>= f) = .ok b ∧ Q b) ↔ ∃ a, x = .ok a ∧ ∃ b, f a = .ok b ∧ Q b := by
  cases x <;> simp

theorem mapError_eq_ok {ε' : Type} {f : ε → ε'} : x.mapError f = .ok a ↔ x = .ok a := by
  cases x <;> simp [Except.mapError]

theorem map_eq_ok {f : α → β} : (f <$> x) = .ok b ↔ ∃ a, x = .ok a ∧ f a = b := by
  cases x <;> simp

variable {items : List α}

variable {results : List β} {R : σ → σ → Prop}

theorem mapM_eq_ok (ran : items.mapM f = .ok results) :
    (∀ b ∈ results, ∃ a ∈ items, f a = .ok b) ∧ ∀ a ∈ items, ∃ b ∈ results, f a = .ok b := by
  induction items generalizing results with
  | nil =>
    cases ran
    exact ⟨nofun, nofun⟩
  | cons a _ ih =>
    rw [mapM_cons] at ran
    obtain ⟨b, first, ran⟩ := bind_eq_ok.mp ran
    obtain ⟨_, others, ran⟩ := bind_eq_ok.mp ran
    cases ran
    obtain ⟨back, forth⟩ := ih others
    constructor
    · intro b' member
      rcases mem_cons.mp member with rfl | old
      · exact ⟨a, mem_cons_self, first⟩
      · obtain ⟨a', member', made⟩ := back b' old
        exact ⟨a', mem_cons_of_mem _ member', made⟩
    · intro a' member
      rcases mem_cons.mp member with rfl | old
      · exact ⟨b, mem_cons_self, first⟩
      · obtain ⟨b', member', made⟩ := forth a' old
        exact ⟨b', mem_cons_of_mem _ member', made⟩

theorem mapM_length (ran : items.mapM f = .ok results) : results.length = items.length := by
  induction items generalizing results with
  | nil =>
    cases ran
    rfl
  | cons _ _ ih =>
    rw [mapM_cons] at ran
    obtain ⟨b, -, ran⟩ := bind_eq_ok.mp ran
    obtain ⟨_, others, ran⟩ := bind_eq_ok.mp ran
    cases ran
    exact congrArg (· + 1) (ih others)

/-- What every step of a fallible fold keeps, the fold keeps. -/
theorem foldlM_rel [Std.Refl R] [IsTrans σ R] {f : σ → α → Except ε σ}
    (step : ∀ s a s', f s a = .ok s' → R s s') :
    ∀ {items : List α} {s s' : σ}, items.foldlM f s = .ok s' → R s s'
  | [], s, s', ran => by
    cases ran
    exact refl_of R s
  | a :: rest, s, s', ran => by
    rw [foldlM_cons] at ran
    obtain ⟨mid, first, last⟩ := bind_eq_ok.mp ran
    exact trans_of R (step s a mid first) (foldlM_rel step last)

/-- An invariant that every step of a fallible fold keeps holds at its end. -/
theorem foldlM_invariant {I : σ → Prop} {f : σ → α → Except ε σ}
    (step : ∀ a ∈ items, ∀ s s', I s → f s a = .ok s' → I s') (start : I s)
    (ran : items.foldlM f s = .ok s') : I s' := by
  induction items generalizing s with
  | nil =>
    cases ran
    exact start
  | cons a _ ih =>
    rw [foldlM_cons] at ran
    obtain ⟨mid, first, last⟩ := bind_eq_ok.mp ran
    exact ih (fun b mem => step b (mem_cons_of_mem a mem))
      (step a mem_cons_self s mid start first) last

theorem foldl_rel [Std.Refl R] [IsTrans σ R] {f : σ → α → σ} (step : ∀ s a, R s (f s a))
    (items : List α) (s : σ) : R s (items.foldl f s) := by
  induction items generalizing s with
  | nil => exact refl_of R s
  | cons a _ ih => exact trans_of R (step s a) (ih _)

theorem forM_eq_ok {f : α → Except ε Unit} (ran : items.forM f = .ok ()) :
    ∀ a ∈ items, f a = .ok () := by
  induction items with
  | nil => exact nofun
  | cons _ _ ih =>
    obtain ⟨_, first, others⟩ := bind_eq_ok.mp ran
    intro b member
    rcases mem_cons.mp member with rfl | old
    · exact first
    · exact ih others b old

/-- The state a computation ends in, returned or failed. -/
def finalState : EStateM.Result ε σ α → σ
  | .ok _ s => s
  | .error _ s => s

@[simp] theorem finalState_ok (a : α) (s : σ) :
    finalState (.ok a s : EStateM.Result ε σ α) = s := rfl

@[simp] theorem finalState_error (e : ε) (s : σ) :
    finalState (.error e s : EStateM.Result ε σ α) = s := rfl

/-- What a computation returned, or how it failed. -/
def valueOf : EStateM.Result ε σ α → Except ε α
  | .ok a _ => .ok a
  | .error e _ => .error e

@[simp] theorem valueOf_ok (a : α) (s : σ) : valueOf (.ok a s : EStateM.Result ε σ α) = .ok a := rfl

@[simp] theorem valueOf_error (e : ε) (s : σ) :
    valueOf (.error e s : EStateM.Result ε σ α) = .error e := rfl

/-- Runs `x` and takes all its writes back when it fails. -/
def transaction (x : EStateM ε σ α) : EStateM ε σ α := fun s =>
  match x s with
  | .ok a s' => .ok a s'
  | .error e _ => .error e s

/-- Runs `x` and returns how it ended as a value. -/
def attempt (x : EStateM ε σ α) : EStateM ε σ (Except ε α) := fun s =>
  match x s with
  | .ok a s' => .ok (.ok a) s'
  | .error e s' => .ok (.error e) s'

/-- A read of the current state that may fail. -/
def readM (f : σ → Except ε α) : EStateM ε σ α := fun s =>
  match f s with
  | .ok a => .ok a s
  | .error e => .error e s

/-- A single write, which either happens or leaves the state as it was. -/
def writeM (f : σ → Except ε σ) : EStateM ε σ Unit := fun s =>
  match f s with
  | .ok s' => .ok () s'
  | .error e => .error e s

theorem transaction_run (x : EStateM ε σ α) (s : σ) :
    (transaction x).run s = match x.run s with
      | .ok a s' => .ok a s'
      | .error e _ => .error e s := rfl

theorem attempt_run (x : EStateM ε σ α) (s : σ) :
    (attempt x).run s = match x.run s with
      | .ok a s' => .ok (.ok a) s'
      | .error e s' => .ok (.error e) s' := rfl

theorem readM_run (f : σ → Except ε α) (s : σ) :
    (readM f).run s = match f s with
      | .ok a => .ok a s
      | .error e => .error e s := rfl

theorem writeM_run (f : σ → Except ε σ) (s : σ) :
    (writeM f).run s = match f s with
      | .ok s' => .ok () s'
      | .error e => .error e s := rfl

variable {x : EStateM ε σ α} {f : σ → Except ε α} {g : α → EStateM ε σ β}

/-- A sequence that returned ran its first part to a value and its second part on from it. -/
theorem bind_run_ok {f : α → EStateM ε σ β} (ran : (x >>= f).run s = .ok b s') :
    ∃ a mid, x.run s = .ok a mid ∧ (f a).run mid = .ok b s' := by
  rw [EStateM.run_bind] at ran
  cases first : x.run s with
  | ok a mid => exact ⟨a, mid, rfl, by simpa [first] using ran⟩
  | error => simp [first] at ran

theorem readM_run_ok (ran : (readM f).run s = .ok a s') : f s = .ok a ∧ s' = s := by
  rw [readM_run] at ran
  cases found : f s with
  | ok =>
    rw [found] at ran
    cases ran
    exact ⟨rfl, rfl⟩
  | error =>
    rw [found] at ran
    cases ran

theorem writeM_run_ok {f : σ → Except ε σ} (ran : (writeM f).run s = .ok () s') : f s = .ok s' := by
  rw [writeM_run] at ran
  cases wrote : f s with
  | ok =>
    rw [wrote] at ran
    cases ran
    rfl
  | error =>
    rw [wrote] at ran
    cases ran

theorem transaction_run_ok (ran : (transaction x).run s = .ok a s') : x.run s = .ok a s' := by
  rw [transaction_run] at ran
  cases ended : x.run s with
  | ok =>
    rw [ended] at ran
    exact ran
  | error =>
    rw [ended] at ran
    cases ran

/-- A sequence that starts with a read goes on from the same state. -/
theorem read_bind_ok (ran : (readM f >>= g).run s = .ok b s') :
    ∃ a, f s = .ok a ∧ (g a).run s = .ok b s' := by
  obtain ⟨a, _, read, rest⟩ := bind_run_ok ran
  obtain ⟨found, rfl⟩ := readM_run_ok read
  exact ⟨a, found, rest⟩

theorem read_bind_of_ok (found : f s = .ok a) : (readM f >>= g).run s = (g a).run s := by
  rw [EStateM.run_bind, readM_run, found]

theorem bind_of_ok (ran : x.run s = .ok a s') : (x >>= g).run s = (g a).run s' := by
  rw [EStateM.run_bind, ran]

/-- Whatever way `x` ends, it relates the state before to the state after by `R`. -/
def Preserves (R : σ → σ → Prop) (x : EStateM ε σ α) : Prop :=
  ∀ s, R s (finalState (x.run s))

namespace Preserves

variable {R : σ → σ → Prop}

theorem of_ok (preserves : Preserves R x) (ran : x.run s = .ok a s') : R s s' := by
  simpa [ran] using preserves s

theorem mono {R' : σ → σ → Prop} (preserves : Preserves R x) (implies : ∀ s s', R s s' → R' s s') :
    Preserves R' x :=
  fun s => implies _ _ (preserves s)

theorem modify {f : σ → σ} (writes : ∀ s, R s (f s)) : Preserves R (modify f : EStateM ε σ PUnit) :=
  fun s => writes s

theorem ite {c : Prop} [Decidable c] (first : Preserves R x) (second : Preserves R y) :
    Preserves R (if c then x else y) := by
  split
  · exact first
  · exact second

section Refl

variable [Std.Refl R]

theorem pure (a : α) : Preserves R (Pure.pure a : EStateM ε σ α) :=
  fun s => refl s

theorem throw (e : ε) : Preserves R (throw e : EStateM ε σ α) :=
  fun s => refl s

theorem read (f : σ → Except ε α) : Preserves R (readM f) := by
  intro s
  rw [readM_run]
  cases f s <;> exact refl s

/-- A read in front of a computation gives it the value read. -/
theorem read_bind (rest : ∀ a, f s = .ok a → R s (finalState ((g a).run s))) :
    R s (finalState ((readM f >>= g).run s)) := by
  rw [EStateM.run_bind, readM_run]
  cases found : f s with
  | ok a => exact rest a found
  | error => exact refl s

theorem write {f : σ → Except ε σ} (writes : ∀ s s', f s = .ok s' → R s s') :
    Preserves R (writeM f) := by
  intro s
  rw [writeM_run]
  cases ran : f s with
  | ok s' => exact writes s s' ran
  | error => exact refl s

theorem get : Preserves R (get : EStateM ε σ σ) :=
  fun s => refl s

/-- A transaction that fails leaves the state as it was, so only a run to the end matters. -/
theorem transaction_of_ok (returns : ∀ s s' a, x.run s = .ok a s' → R s s') :
    Preserves R (UniSsh.transaction x) := by
  intro s
  rw [transaction_run]
  cases ran : x.run s with
  | ok a s' => exact returns s s' a ran
  | error => exact refl s

theorem transaction (preserves : Preserves R x) : Preserves R (transaction x) :=
  transaction_of_ok fun _ _ _ ran => preserves.of_ok ran

end Refl

theorem bind [IsTrans σ R] {f : α → EStateM ε σ β} (first : Preserves R x)
    (rest : ∀ a, Preserves R (f a)) : Preserves R (x >>= f) := by
  intro s
  rw [EStateM.run_bind]
  have step := first s
  cases ran : x.run s with
  | ok a mid => exact IsTrans.trans _ _ _ (by simpa [ran] using step) (rest a mid)
  | error => simpa [ran] using step

theorem forM [Std.Refl R] [IsTrans σ R] {items : List β} {f : β → EStateM ε σ PUnit}
    (each : ∀ b ∈ items, Preserves R (f b)) : Preserves R (items.forM f) := by
  induction items with
  | nil => exact Preserves.pure PUnit.unit
  | cons b _ ih =>
    refine Preserves.bind (each b mem_cons_self) fun _ => ?_
    exact ih fun b' member => each b' (mem_cons_of_mem _ member)

end Preserves

/-- From `s`, `x` returns with a value and a state that satisfy `Q`. -/
def ReturnsTo (x : EStateM ε σ α) (s : σ) (Q : α → σ → Prop) : Prop :=
  ∃ a s', x.run s = .ok a s' ∧ Q a s'

namespace ReturnsTo

variable {s : σ} {Q : β → σ → Prop}

theorem bind {f : α → EStateM ε σ β} {M : α → σ → Prop} (first : ReturnsTo x s M)
    (rest : ∀ a s', M a s' → ReturnsTo (f a) s' Q) : ReturnsTo (x >>= f) s Q := by
  obtain ⟨a, s', ran, reached⟩ := first
  obtain ⟨b, s'', ranRest, post⟩ := rest a s' reached
  exact ⟨b, s'', by rw [bind_of_ok ran, ranRest], post⟩

theorem read_bind (found : f s = .ok a) (rest : ReturnsTo (g a) s Q) :
    ReturnsTo (readM f >>= g) s Q := by
  obtain ⟨b, s', ran, post⟩ := rest
  exact ⟨b, s', by rw [read_bind_of_ok found, ran], post⟩

theorem write {f : σ → Except ε σ} {Q : Unit → σ → Prop} (wrote : f s = .ok s') (post : Q () s') :
    ReturnsTo (writeM f) s Q :=
  ⟨(), s', by rw [writeM_run, wrote], post⟩

theorem modify {f : σ → σ} {Q : PUnit → σ → Prop} (post : Q ⟨⟩ (f s)) :
    ReturnsTo (modify f : EStateM ε σ PUnit) s Q :=
  ⟨⟨⟩, f s, rfl, post⟩

theorem transaction {x : EStateM ε σ β} (returns : ReturnsTo x s Q) :
    ReturnsTo (transaction x) s Q := by
  obtain ⟨b, s', ran, post⟩ := returns
  exact ⟨b, s', by rw [transaction_run, ran], post⟩

/-- A loop returns when every round of its invariant does. -/
theorem forM {f : α → EStateM ε σ PUnit} {Q : PUnit → σ → Prop} (invariant : List α → σ → Prop)
    (round : ∀ a rest s, invariant (a :: rest) s → ReturnsTo (f a) s fun _ => invariant rest)
    (done : ∀ s, invariant [] s → Q ⟨⟩ s) (start : invariant items s) :
    ReturnsTo (items.forM f) s Q := by
  induction items generalizing s with
  | nil => exact ⟨⟨⟩, s, rfl, done s start⟩
  | cons a rest ih => exact (round a rest s start).bind fun _ _ reached => ih reached

end ReturnsTo

end UniSsh
