import UniSsh.Base.Effect
import Mathlib.Logic.Relation

/-!
# Programs that run beside each other

Between two atomic steps of a `Program` any other may take its own. `Sound` is a rely and
guarantee rule relative to the last state the program saw, and gives an invariant of all
interleavings.
-/

namespace UniSsh

open List

/-- A computation in atomic steps on a shared state. -/
inductive Program (σ ε α : Type) where
  | done (result : Except ε α)
  | step (effect : σ → σ) (next : σ → Program σ ε α)

namespace Program

variable {σ ε α β : Type}

protected def bind : Program σ ε α → (α → Program σ ε β) → Program σ ε β
  | done (.ok a), f => f a
  | done (.error e), _ => done (.error e)
  | step effect next, f => step effect fun s => (next s).bind f

instance : Monad (Program σ ε) where
  pure a := done (.ok a)
  bind := Program.bind

/-- A computation that does not look at the state. -/
def lift (result : Except ε α) : Program σ ε α := done result

/-- One read of the state. -/
def query (f : σ → Except ε α) : Program σ ε α := step id fun s => done (f s)

/-- One transaction: all of its writes happen, or none when it fails. -/
def commit (f : σ → Except ε (α × σ)) : Program σ ε α :=
  step (fun s => match f s with
    | .ok (_, s') => s'
    | .error _ => s)
    fun s => done ((f s).map Prod.fst)

/-- The state and the result of a program that runs alone. -/
def runAlone : Program σ ε α → σ → σ × Except ε α
  | done result, s => (s, result)
  | step effect next, s => (next s).runAlone (effect s)

theorem runAlone_bind (x : Program σ ε α) (f : α → Program σ ε β) (s : σ) :
    (x >>= f).runAlone s =
      match x.runAlone s with
      | (s', .ok a) => (f a).runAlone s'
      | (s', .error e) => (s', .error e) := by
  induction x generalizing s with
  | done result => cases result <;> rfl
  | step effect _ ih => exact ih s (effect s)

variable {items : List β}

/-- After a loop that went through, one more round. -/
theorem runAlone_forM_append {f : β → Program σ ε PUnit}
    (ran : (items.forM f).runAlone s = (s', .ok ⟨⟩)) (item : β) :
    ((items ++ [item]).forM f).runAlone s = (f item).runAlone s' := by
  induction items generalizing s with
  | nil =>
    obtain rfl : s = s' := congrArg Prod.fst ran
    change (f item >>= fun _ => pure PUnit.unit).runAlone s = _
    rw [runAlone_bind]
    rcases (f item).runAlone s with ⟨_, _ | _⟩ <;> rfl
  | cons first rest ih =>
    change (f first >>= fun _ => rest.forM f).runAlone s = _ at ran
    change (f first >>= fun _ => (rest ++ [item]).forM f).runAlone s = _
    rw [runAlone_bind] at ran ⊢
    cases done : (f first).runAlone s with
    | mk _ result =>
      rw [done] at ran
      cases result with
      | error => cases (Prod.mk.inj ran).2
      | ok => exact ih ran

/-- The program with its failures as results. -/
def observe : Program σ ε α → Program σ ε (Except ε α)
  | done result => done (.ok result)
  | step effect next => step effect fun s => (next s).observe

theorem observe_bind (x : Program σ ε α) (f : α → Program σ ε β) :
    (x >>= f).observe = x.observe >>= fun result =>
      match result with
      | .ok a => (f a).observe
      | .error e => pure (.error e) := by
  induction x with
  | done result => cases result <;> rfl
  | step effect _ ih => exact congrArg (step effect) (funext ih)

theorem observe_query (f : σ → Except ε α) : (query f).observe = query fun s => .ok (f s) := rfl

theorem observe_commit (f : σ → Except ε (α × σ)) :
    (commit f).observe = commit fun s =>
      match f s with
      | .ok (a, s') => .ok (.ok a, s')
      | .error e => .ok (.error e, s) := by
  refine congrArg₂ step (funext fun s => ?_) (funext fun s => ?_)
  · dsimp only
    cases f s <;> rfl
  · dsimp only
    cases f s <;> rfl

/-! ## Rely and guarantee -/

section Sound

variable (rely guarantee : σ → σ → Prop) (inv : σ → Prop)

/-- The program keeps the invariant and its guarantee, and `post` holds at the end. -/
def Sound (post : σ → α → Prop) : σ → Program σ ε α → Prop
  | s₀, done (.ok a) => post s₀ a
  | _, done (.error _) => True
  | s₀, step effect next => ∀ s, rely s₀ s → inv s →
      inv (effect s) ∧ guarantee s (effect s) ∧ (next s).Sound post (effect s)

variable {rely guarantee inv} {post : σ → α → Prop} {post' : σ → β → Prop} {s₀ : σ}
  {x : Program σ ε α}

theorem Sound.bind {f : α → Program σ ε β} (first : x.Sound rely guarantee inv post s₀)
    (rest : ∀ s a, post s a → (f a).Sound rely guarantee inv post' s) :
    (x >>= f).Sound rely guarantee inv post' s₀ := by
  induction x generalizing s₀ with
  | done result =>
    cases result with
    | ok a => exact rest s₀ a first
    | error => exact trivial
  | step _ _ ih =>
    intro s later holds
    obtain ⟨kept, within, continued⟩ := first s later holds
    exact ⟨kept, within, ih s continued⟩

theorem Sound.pure (holds : post s₀ a) :
    (Pure.pure a : Program σ ε α).Sound rely guarantee inv post s₀ :=
  holds

variable {result : Except ε α} {g : α → Program σ ε β} {f : σ → Except ε (α × σ)}

theorem Sound.lift (returned : ∀ a, result = .ok a → post s₀ a) :
    (lift result : Program σ ε α).Sound rely guarantee inv post s₀ := by
  cases result with
  | ok a => exact returned a rfl
  | error => exact trivial

theorem Sound.query [Std.Refl guarantee] {f : σ → Except ε α}
    (read : ∀ s a, rely s₀ s → inv s → f s = .ok a → post s a) :
    (query f).Sound rely guarantee inv post s₀ := by
  intro s later holds
  refine ⟨holds, refl s, ?_⟩
  dsimp only [id]
  cases found : f s with
  | ok a => exact read s a later holds found
  | error => exact trivial

theorem Sound.lift_bind {f : α → Program σ ε β}
    (rest : ∀ a, result = .ok a → (f a).Sound rely guarantee inv post' s₀) :
    (Program.lift result >>= f).Sound rely guarantee inv post' s₀ := by
  cases result with
  | ok a => exact rest a rfl
  | error => exact trivial

theorem Sound.query_bind [Std.Refl guarantee] {f : σ → Except ε α}
    (rest : ∀ s a, rely s₀ s → inv s → f s = .ok a → (g a).Sound rely guarantee inv post' s) :
    (Program.query f >>= g).Sound rely guarantee inv post' s₀ := by
  intro s later holds
  refine ⟨holds, refl s, ?_⟩
  have next : (Program.lift (f s) >>= g).Sound rely guarantee inv post' s :=
    lift_bind fun a found => rest s a later holds found
  exact next

theorem Sound.commit [Std.Refl guarantee] (wrote : ∀ s a s', rely s₀ s → inv s → f s = .ok (a, s') →
      inv s' ∧ guarantee s s' ∧ post s' a) : (commit f).Sound rely guarantee inv post s₀ := by
  intro s later holds
  dsimp only
  cases ran : f s with
  | ok result =>
    obtain ⟨a, s'⟩ := result
    obtain ⟨kept, within, returned⟩ := wrote s a s' later holds ran
    exact ⟨kept, within, returned⟩
  | error => exact ⟨holds, refl s, trivial⟩

theorem Sound.commit_bind [Std.Refl guarantee]
    (wrote : ∀ s a s', rely s₀ s → inv s → f s = .ok (a, s') →
      inv s' ∧ guarantee s s' ∧ (g a).Sound rely guarantee inv post' s') :
    (Program.commit f >>= g).Sound rely guarantee inv post' s₀ :=
  Sound.bind (Sound.commit wrote) fun _ _ rest => rest

theorem Sound.mono {weaker : σ → α → Prop} (sound : x.Sound rely guarantee inv post s₀)
    (implies : ∀ s a, post s a → weaker s a) : x.Sound rely guarantee inv weaker s₀ := by
  induction x generalizing s₀ with
  | done result =>
    cases result with
    | ok a => exact implies s₀ a sound
    | error => exact trivial
  | step _ _ ih =>
    intro s later holds
    obtain ⟨kept, within, continued⟩ := sound s later holds
    exact ⟨kept, within, ih s continued⟩

section Later

variable [IsTrans σ rely] (respects : ∀ s s', guarantee s s' → rely s s')

include respects

/-- A program returns in a state later than the one it started from. -/
theorem Sound.since (earlier : rely earliest s₀) (sound : x.Sound rely guarantee inv post s₀) :
    x.Sound rely guarantee inv (fun s a => rely earliest s ∧ post s a) s₀ := by
  induction x generalizing s₀ with
  | done result =>
    cases result with
    | ok => exact ⟨earlier, sound⟩
    | error => exact trivial
  | step _ _ ih =>
    intro s later holds
    obtain ⟨kept, within, continued⟩ := sound s later holds
    have seen := IsTrans.trans _ _ _ earlier later
    exact ⟨kept, within, ih s (IsTrans.trans _ _ _ seen (respects _ _ within)) continued⟩

/-- What each round of a loop establishes holds at its end, if the others keep it. -/
theorem Sound.forM [Std.Refl rely] {learned : β → σ → Prop}
    (stable : ∀ b s s', rely s s' → learned b s → learned b s') {f : β → Program σ ε PUnit}
    (each : ∀ b ∈ items, ∀ s, rely s₀ s →
      (f b).Sound rely guarantee inv (fun s _ => learned b s) s) :
    (items.forM f).Sound rely guarantee inv (fun s _ => ∀ b ∈ items, learned b s) s₀ := by
  induction items generalizing s₀ with
  | nil => exact nofun
  | cons b rest ih =>
    have first := (each b mem_cons_self s₀ (refl _)).since respects
      (refl s₀)
    refine Sound.bind first fun s _ reached => ?_
    have others : ∀ b ∈ rest, ∀ s', rely s s' →
        (f b).Sound rely guarantee inv (fun s _ => learned b s) s' := by
      intro b member s' later
      exact each b (mem_cons_of_mem _ member) s' (IsTrans.trans _ _ _ reached.1 later)
    refine ((ih others).since respects (refl s)).mono fun s' _ done => ?_
    intro b' member
    rcases mem_cons.mp member with rfl | old
    · exact stable b' s s' done.1 reached.2
    · exact done.2 b' old

end Later

end Sound

end Program

/-! ## Pools -/

/-- A shared state and the programs running on it, each with the request it serves. -/
structure Pool (σ ε α ι : Type) where
  state : σ
  running : List (ι × Program σ ε α)

namespace Pool

variable {σ ε α ι : Type}

/-- One of the running programs takes its next step. -/
inductive Moves : Pool σ ε α ι → ι → Pool σ ε α ι → Prop where
  | mk (s : σ) (before after : List (ι × Program σ ε α)) (request : ι) (effect : σ → σ)
      (next : σ → Program σ ε α) :
      Moves ⟨s, before ++ (request, .step effect next) :: after⟩ request
        ⟨effect s, before ++ (request, next s) :: after⟩

/-- The pools reached by starting admissible requests and running their programs in any order. -/
inductive Reached (program : ι → Program σ ε α) (admissible : σ → ι → Prop) (init : σ) :
    Pool σ ε α ι → Prop where
  | init : Reached program admissible init ⟨init, []⟩
  | start {pool : Pool σ ε α ι} (reached : Reached program admissible init pool) (request : ι)
      (admitted : admissible pool.state request) :
      Reached program admissible init
        { pool with running := (request, program request) :: pool.running }
  | moves {pool pool' : Pool σ ε α ι} (reached : Reached program admissible init pool)
      {request : ι} (step : pool.Moves request pool') : Reached program admissible init pool'

variable {program : ι → Program σ ε α} {admissible : σ → ι → Prop} {init : σ}
  {rely : σ → σ → Prop} {guarantee : ι → σ → σ → Prop} {inv : σ → Prop} {post : ι → σ → α → Prop}

/-- The invariant holds, and every running program is sound from some earlier state on. -/
structure Coherent (rely : σ → σ → Prop) (guarantee : ι → σ → σ → Prop) (inv : σ → Prop)
    (post : ι → σ → α → Prop) (pool : Pool σ ε α ι) : Prop where
  holds : inv pool.state
  sound : ∀ entry ∈ pool.running, ∃ s₀, rely s₀ pool.state ∧
    entry.2.Sound rely (guarantee entry.1) inv (post entry.1) s₀

variable {pool : Pool σ ε α ι} {request : ι}

theorem Coherent.moves [IsTrans σ rely]
    (respects : ∀ request s s', guarantee request s s' → rely s s') [Std.Refl rely]
    (coherent : pool.Coherent rely guarantee inv post) (step : pool.Moves request pool') :
    pool'.Coherent rely guarantee inv post ∧ guarantee request pool.state pool'.state := by
  cases step with
  | mk s _ _ request effect next =>
    obtain ⟨_, earlier, sound⟩ := coherent.sound (request, .step effect next) (by simp)
    obtain ⟨kept, within, continued⟩ := sound s earlier coherent.holds
    refine ⟨⟨kept, ?_⟩, within⟩
    intro entry member
    rcases mem_append.mp member with old | rest
    · obtain ⟨s₁, earlier', sound'⟩ := coherent.sound entry (mem_append_left _ old)
      exact ⟨s₁, IsTrans.trans _ _ _ earlier' (respects request _ _ within), sound'⟩
    · rcases mem_cons.mp rest with rfl | old
      · exact ⟨effect s, refl _, continued⟩
      · obtain ⟨s₁, earlier', sound'⟩ := coherent.sound entry
          (mem_append_right _ (mem_cons_of_mem _ old))
        exact ⟨s₁, IsTrans.trans _ _ _ earlier' (respects request _ _ within), sound'⟩

/-- What a program that has ended returned is what its postcondition allows, in some state it
has seen. -/
theorem Coherent.ended (coherent : pool.Coherent rely guarantee inv post)
    (member : (request, .done (.ok a)) ∈ pool.running) :
    ∃ s, rely s pool.state ∧ post request s a :=
  coherent.sound _ member

/-- Where all programs are sound, every interleaving keeps the invariant and the guarantees. -/
theorem Reached.coherent [Std.Refl rely] [IsTrans σ rely] (start : inv init)
    (respects : ∀ request s s', guarantee request s s' → rely s s')
    (sound : ∀ request s, admissible s request → inv s →
      (program request).Sound rely (guarantee request) inv (post request) s)
    (reached : Reached program admissible init pool) : pool.Coherent rely guarantee inv post := by
  induction reached with
  | init => exact ⟨start, nofun⟩
  | @start pool reached request admitted ih =>
    refine ⟨ih.holds, ?_⟩
    intro entry member
    rcases mem_cons.mp member with rfl | old
    · exact ⟨pool.state, refl _, sound request pool.state admitted ih.holds⟩
    · exact ih.sound entry old
  | moves _ step ih => exact (ih.moves respects step).1

theorem Reached.running_of {asked : ι → Prop} (admits : ∀ s request, admissible s request →
    asked request) (reached : Reached program admissible init pool) :
    ∀ entry ∈ pool.running, asked entry.1 := by
  induction reached with
  | init => exact nofun
  | @start pool reached request admitted ih =>
    intro entry member
    rcases mem_cons.mp member with rfl | old
    · exact admits pool.state request admitted
    · exact ih entry old
  | moves _ step ih =>
    cases step with
    | mk _ _ _ _ effect next =>
      intro entry member
      rcases mem_append.mp member with old | rest
      · exact ih entry (mem_append_left _ old)
      · rcases mem_cons.mp rest with rfl | old
        · exact ih (_, .step effect next) (by simp)
        · exact ih entry (mem_append_right _ (mem_cons_of_mem _ old))

theorem Reached.runAlone (reached : Reached program admissible init pool)
    (remaining : Program σ ε α) (running : pool.running = (request, remaining) :: others) :
    ∃ pool', Reached program admissible init pool' ∧
      pool'.state = (remaining.runAlone pool.state).1 := by
  induction remaining generalizing pool with
  | done => exact ⟨pool, reached, rfl⟩
  | step effect next ih =>
    obtain ⟨s, _⟩ := pool
    subst running
    have step := Moves.mk s [] others request effect next
    exact ih s (reached.moves step) rfl

/-- The program at a position takes its next step, if it has one. -/
def advance (pool : Pool σ ε α ι) (i : Nat) : Pool σ ε α ι :=
  match pool.running[i]? with
  | some (request, .step effect next) =>
    { state := effect pool.state, running := pool.running.set i (request, next pool.state) }
  | _ => pool

theorem advance_eq_or_moves (pool : Pool σ ε α ι) (i : Nat) :
    pool.advance i = pool ∨ ∃ request, pool.running[i]?.map Prod.fst = some request ∧
      pool.Moves request (pool.advance i) := by
  obtain ⟨s, running⟩ := pool
  unfold advance
  split
  · next request effect next found =>
    obtain ⟨within, isEntry⟩ := List.getElem?_eq_some_iff.mp found
    have split : running = running.take i ++ (request, .step effect next) ::
        running.drop (i + 1) := by
      rw [← isEntry, getElem_cons_drop, take_append_drop]
    have step := Moves.mk s (running.take i) (running.drop (i + 1)) request effect next
    rw [← split] at step
    rw [set_eq_take_append_cons_drop, if_pos within]
    exact .inr ⟨request, by rw [found]; rfl, step⟩
  · exact .inl rfl

theorem Reached.advance (reached : Reached program admissible init pool) (i : Nat) :
    Reached program admissible init (pool.advance i) := by
  rcases pool.advance_eq_or_moves i with same | ⟨_, -, step⟩
  · exact same.symm ▸ reached
  · exact reached.moves step

theorem Reached.advances (reached : Reached program admissible init pool) (schedule : List Nat) :
    Reached program admissible init (schedule.foldl Pool.advance pool) := by
  induction schedule generalizing pool with
  | nil => exact reached
  | cons i _ ih => exact ih (reached.advance i)

theorem advances_requests (schedule : List Nat) (pool : Pool σ ε α ι) :
    (schedule.foldl advance pool).running.map Prod.fst = pool.running.map Prod.fst := by
  induction schedule generalizing pool with
  | nil => rfl
  | cons i _ ih =>
    refine (ih (pool.advance i)).trans ?_
    unfold advance
    split
    · next next found =>
      refine ext_getElem? fun n => ?_
      rw [map_set, getElem?_set]
      split
      · next same =>
        subst same
        obtain ⟨within, isEntry⟩ := List.getElem?_eq_some_iff.mp found
        simp [within, isEntry]
      · rfl
    · rfl

theorem moves_of_advance (isRequest : pool.running[i]?.map Prod.fst = some request)
    (changed : (pool.advance i).state ≠ pool.state) : pool.Moves request (pool.advance i) := by
  rcases pool.advance_eq_or_moves i with same | ⟨_, isRequest', step⟩
  · exact absurd (congrArg Pool.state same) changed
  · cases isRequest.symm.trans isRequest'
    exact step

end Pool

end UniSsh
