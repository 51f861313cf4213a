import Mathlib.Order.Defs.Unbundled

/-!
# Processes that issue statements

A process touches a shared state by named atomic statements only, so a run may be required to
execute none but certain statements (`Reaches`), whatever the order and whichever processes stop
half way.
-/

namespace UniSsh

open List

/-- A computation that asks for statements and goes on with their answers. -/
inductive Process (Q : Type) (Res : Q → Type) (α : Type) where
  | done (result : α)
  | ask (q : Q) (next : Res q → Process Q Res α)

namespace Process

variable {Q : Type} {Res : Q → Type} {α β σ ι : Type}

protected def bind : Process Q Res α → (α → Process Q Res β) → Process Q Res β
  | done a, f => f a
  | ask q next, f => ask q fun r => (next r).bind f

instance : Monad (Process Q Res) where
  pure := done
  bind := Process.bind

/-- One statement. -/
def call (q : Q) : Process Q Res (Res q) := ask q done

variable (exec : (q : Q) → σ → Res q × σ)

/-- The result and the state of a process that runs alone. -/
def runAlone : Process Q Res α → σ → α × σ
  | done a, s => (a, s)
  | ask q next, s => (next (exec q s).1).runAlone (exec q s).2

/-- Every statement of a process that runs alone is allowed where it is executed. -/
def AllowedAlone (allowed : σ → Q → Prop) : Process Q Res α → σ → Prop
  | done _, _ => True
  | ask q next, s => allowed s q ∧ (next (exec q s).1).AllowedAlone allowed (exec q s).2

instance instDecidableAllowedAlone (allowed : σ → Q → Prop) [∀ s q, Decidable (allowed s q)] :
    (p : Process Q Res α) → (s : σ) → Decidable (p.AllowedAlone exec allowed s)
  | done _, _ => .isTrue trivial
  | ask q next, s =>
    have := instDecidableAllowedAlone allowed (next (exec q s).1) (exec q s).2
    inferInstanceAs (Decidable (_ ∧ _))

/-- A process after some of its statements, run alone, and the state they leave. -/
def advance : Nat → Process Q Res α → σ → Process Q Res α × σ
  | 0, p, s => (p, s)
  | _ + 1, done a, s => (done a, s)
  | n + 1, ask q next, s => (next (exec q s).1).advance n (exec q s).2

/-- These statements are allowed where they are executed. -/
def AllowedFor (allowed : σ → Q → Prop) : Nat → Process Q Res α → σ → Prop
  | 0, _, _ => True
  | _ + 1, done _, _ => True
  | n + 1, ask q next, s => allowed s q ∧ (next (exec q s).1).AllowedFor allowed n (exec q s).2

instance instDecidableAllowedFor (allowed : σ → Q → Prop) [∀ s q, Decidable (allowed s q)] :
    (n : Nat) → (p : Process Q Res α) → (s : σ) → Decidable (p.AllowedFor exec allowed n s)
  | 0, _, _ => .isTrue trivial
  | _ + 1, done _, _ => .isTrue trivial
  | n + 1, ask q next, s =>
    have := instDecidableAllowedFor allowed n (next (exec q s).1) (exec q s).2
    inferInstanceAs (Decidable (_ ∧ _))

/-- The states and processes reached by executing allowed statements in any order. -/
inductive Reaches (program : ι → Process Q Res α) (allowed : σ → Q → Prop) (init : σ) :
    σ → List (Process Q Res α) → Prop where
  | init : Reaches program allowed init init []
  | start {s : σ} {running : List (Process Q Res α)} (reached : Reaches program allowed init s running)
      (request : ι) : Reaches program allowed init s (program request :: running)
  | execute {s : σ} {before after : List (Process Q Res α)} (q : Q)
      (next : Res q → Process Q Res α)
      (reached : Reaches program allowed init s (before ++ .ask q next :: after))
      (fine : allowed s q) :
      Reaches program allowed init (exec q s).2 (before ++ next (exec q s).1 :: after)

variable {exec} {program : ι → Process Q Res α} {allowed : σ → Q → Prop} {init s : σ}
  {running : List (Process Q Res α)}

/-- What allowed statements keep holds of every state reached. -/
theorem Reaches.invariant {inv : σ → Prop} (start : inv init)
    (keeps : ∀ s q, inv s → allowed s q → inv (exec q s).2)
    (reached : Reaches exec program allowed init s running) : inv s := by
  induction reached with
  | init => exact start
  | start _ _ ih => exact ih
  | execute q _ _ fine ih => exact keeps _ q ih fine

variable {p : Process Q Res α}

/-- A request that no other interrupts. -/
theorem Reaches.alone (reached : Reaches exec program allowed init s running)
    (first : ∃ rest, running = p :: rest) (fine : p.AllowedAlone exec allowed s) :
    ∃ running', Reaches exec program allowed init (p.runAlone exec s).2 running' := by
  induction p generalizing s running with
  | done => exact ⟨running, reached⟩
  | ask q next ih =>
    obtain ⟨rest, rfl⟩ := first
    obtain ⟨now, later⟩ := fine
    exact ih _ (@Reaches.execute _ _ _ _ _ _ _ _ _ _ [] rest q next reached now) ⟨rest, rfl⟩ later

theorem AllowedAlone.mono {allowed' : σ → Q → Prop} (fine : p.AllowedAlone exec allowed s)
    (weaker : ∀ s q, allowed s q → allowed' s q) : p.AllowedAlone exec allowed' s := by
  induction p generalizing s with
  | done => trivial
  | ask q _ ih => exact ⟨weaker s q fine.1, ih _ fine.2⟩

/-- Some statements of one process, while the others wait. -/
theorem Reaches.advance {before after : List (Process Q Res α)} (n : Nat)
    (reached : Reaches exec program allowed init s (before ++ p :: after))
    (fine : p.AllowedFor exec allowed n s) :
    Reaches exec program allowed init (p.advance exec n s).2
      (before ++ (p.advance exec n s).1 :: after) := by
  induction n generalizing p s with
  | zero => exact reached
  | succ _ ih =>
    cases p with
    | done => exact reached
    | ask q next => exact ih (reached.execute q next fine.1) fine.2

/-! ## Statements that are safe where they are executed -/

section Sound

variable (exec) (inv : σ → Prop) (rely : σ → σ → Prop) (allowed safe : σ → Q → Prop)

/-- Every statement is safe where it is executed, and the result is as `post` says. -/
def Sound (post : α → σ → Prop) : Process Q Res α → σ → Prop
  | done a, s => post a s
  | ask q next, s => ∀ s', inv s' → rely s s' →
      safe s' q ∧ (allowed s' q → (next (exec q s').1).Sound post (exec q s').2)

variable {exec inv rely allowed safe} {post : α → σ → Prop}

theorem Sound.mono {post' : α → σ → Prop} (sound : p.Sound exec inv rely allowed safe post s)
    (weaker : ∀ a s, post a s → post' a s) : p.Sound exec inv rely allowed safe post' s := by
  induction p generalizing s with
  | done a => exact weaker a s sound
  | ask _ _ ih =>
    intro s' holds later
    obtain ⟨now, rest⟩ := sound s' holds later
    exact ⟨now, fun fine => ih _ (rest fine)⟩

theorem Sound.bind {post' : β → σ → Prop} {f : α → Process Q Res β}
    (first : p.Sound exec inv rely allowed safe post s)
    (second : ∀ a s, post a s → (f a).Sound exec inv rely allowed safe post' s) :
    (p.bind f).Sound exec inv rely allowed safe post' s := by
  induction p generalizing s with
  | done a => exact second a s first
  | ask _ _ ih =>
    intro s' holds later
    obtain ⟨now, rest⟩ := first s' holds later
    exact ⟨now, fun fine => ih _ (rest fine)⟩

/-- What a process may rely on at a state it may rely on at every later one. -/
theorem Sound.later [IsTrans σ rely] (stable : ∀ a s s', rely s s' → post a s → post a s')
    (sound : p.Sound exec inv rely allowed safe post s) (step : rely s s') :
    p.Sound exec inv rely allowed safe post s' := by
  cases p with
  | done a => exact stable a s s' step sound
  | ask => exact fun s'' holds more => sound s'' holds (trans_of rely step more)

/-- If every process is sound, the invariant holds of every state reached. -/
theorem Reaches.sound [IsTrans σ rely] [Std.Refl rely] (start : inv init)
    (keeps : ∀ s q, inv s → allowed s q → safe s q → inv (exec q s).2 ∧ rely s (exec q s).2)
    (programs : ∀ request s, (program request).Sound exec inv rely allowed safe (fun _ _ => True) s)
    (reached : Reaches exec program allowed init s running) :
    inv s ∧ ∀ p ∈ running, p.Sound exec inv rely allowed safe (fun _ _ => True) s := by
  induction reached with
  | init => exact ⟨start, nofun⟩
  | @start s running _ request ih =>
    refine ⟨ih.1, fun p mem => ?_⟩
    obtain rfl | old := mem_cons.mp mem
    · exact programs request s
    · exact ih.2 p old
  | @execute s before after q next _ fine ih =>
    obtain ⟨holds, others⟩ := ih
    obtain ⟨now, rest⟩ := others _ (mem_append_right _ mem_cons_self) s holds
      (refl_of rely s)
    obtain ⟨holds', step⟩ := keeps s q holds fine now
    refine ⟨holds', fun p mem => ?_⟩
    obtain left | right := mem_append.mp mem
    · exact (others p (mem_append_left _ left)).later (fun _ _ _ _ _ => trivial) step
    · obtain rfl | right := mem_cons.mp right
      · exact rest fine
      · exact (others p (mem_append_right _ (mem_cons_of_mem _ right))).later
          (fun _ _ _ _ _ => trivial) step

end Sound

/-! ## Processes that may fail -/

/-- A process whose failure ends it. -/
abbrev Fallible (ε Q : Type) (Res : Q → Type) := ExceptT ε (Process Q Res)

namespace Fallible

variable {ε : Type}

def ask (q : Q) : Fallible ε Q Res (Res q) := ExceptT.lift (call q)

/-- Fails unless the condition holds. -/
def check (condition : Bool) (failure : ε) : Fallible ε Q Res Unit :=
  if condition then pure () else throw failure

/-- A statement that writes, whose failure is the process's. -/
def commit (result : Fallible ε Q Res (Except ε Unit)) : Fallible ε Q Res Unit := do
  match ← result with
  | .ok () => pure ()
  | .error e => throw e

variable (exec : (q : Q) → σ → Res q × σ)

theorem runAlone_ask_bind (q : Q) (next : Res q → Fallible ε Q Res β) (s : σ) :
    (ask q >>= next).run.runAlone exec s = (next (exec q s).1).run.runAlone exec (exec q s).2 :=
  rfl

variable {condition : Bool}

theorem runAlone_check_bind (holds : condition = true) (failure : ε)
    (next : Unit → Fallible ε Q Res β) (s : σ) :
    (check condition failure >>= next).run.runAlone exec s = (next ()).run.runAlone exec s := by
  rw [holds]
  rfl

theorem runAlone_throw (e : ε) (s : σ) :
    (throw e : Fallible ε Q Res α).run.runAlone exec s = (.error e, s) :=
  rfl

variable (inv : σ → Prop) (rely : σ → σ → Prop) (allowed safe : σ → Q → Prop)

/-- Every statement is executed where it is safe, and a success is as `post` says. -/
def Sound (x : Fallible ε Q Res α) (s : σ) (post : α → σ → Prop) : Prop :=
  Process.Sound exec inv rely allowed safe (fun r s => ∀ a, r = .ok a → post a s) x.run s

variable {exec inv rely allowed safe} {s : σ}

/-- The second process runs where the first succeeds. -/
theorem Sound.bind {second : α → Fallible ε Q Res β} {M : α → σ → Prop} {post : β → σ → Prop}
    (before : Sound exec inv rely allowed safe first s M)
    (after : ∀ a s, M a s → Sound exec inv rely allowed safe (second a) s post) :
    Sound exec inv rely allowed safe (first >>= second) s post := by
  refine Process.Sound.bind before fun r s holds => ?_
  cases r with
  | ok a => exact after a s (holds a rfl)
  | error => exact fun b failed => nomatch failed

variable {post : α → σ → Prop} {next : Unit → Fallible ε Q Res β}
  {result : Fallible ε Q Res (Except ε Unit)}

theorem pure_sound (holds : post a s) :
    Sound exec inv rely allowed safe (pure a : Fallible ε Q Res α) s post := by
  intro b same
  cases same
  exact holds

theorem throw_sound :
    Sound exec inv rely allowed safe (throw e : Fallible ε Q Res α) s post :=
  fun _ failed => nomatch failed

variable {q : Q} {failure : ε}

theorem ask_sound {P : Res q → σ → Prop}
    (now : ∀ s', inv s' → rely s s' → safe s' q ∧ (allowed s' q → P (exec q s').1 (exec q s').2)) :
    Sound exec inv rely allowed safe (ask q : Fallible ε Q Res (Res q)) s P := by
  intro s' holds step
  refine ⟨(now s' holds step).1, fun fine b same => ?_⟩
  cases same
  exact (now s' holds step).2 fine

/-- A statement that takes nothing for granted. -/
theorem ask_bind_sound {next : Res q → Fallible ε Q Res β} {post : β → σ → Prop}
    (free : ∀ s, safe s q) (after : ∀ r s, Sound exec inv rely allowed safe (next r) s post) :
    Sound exec inv rely allowed safe (ask q >>= next) s post :=
  (ask_sound fun s' _ _ => ⟨free s', fun _ => trivial⟩).bind (M := fun _ _ => True)
    fun r s _ => after r s

theorem check_bind_sound {post : β → σ → Prop}
    (after : condition = true → Sound exec inv rely allowed safe (next ()) s post) :
    Sound exec inv rely allowed safe (check condition failure >>= next) s post := by
  cases condition with
  | true => exact after rfl
  | false => exact fun _ failed => nomatch failed

theorem check_sound {post : Unit → σ → Prop} (holds : condition = true → post () s) :
    Sound exec inv rely allowed safe (check condition failure : Fallible ε Q Res Unit) s post := by
  cases condition with
  | true => exact pure_sound (holds rfl)
  | false => exact throw_sound

/-- A write that goes through leaves what it writes. -/
theorem commit_then_sound {M : σ → Prop} {post : β → σ → Prop}
    (ran : Sound exec inv rely allowed safe result s fun r s => r = .ok () → M s)
    (after : ∀ s, M s → Sound exec inv rely allowed safe (next ()) s post) :
    Sound exec inv rely allowed safe (commit result >>= next) s post := by
  refine Sound.bind (M := fun _ => M) (ran.bind fun r s wrote => ?_) fun _ s holds => after s holds
  cases r with
  | ok => exact pure_sound (wrote rfl)
  | error => exact throw_sound

theorem commit_sound (ran : Sound exec inv rely allowed safe result s fun _ _ => True) :
    Sound exec inv rely allowed safe (commit result) s fun _ _ => True := by
  refine ran.bind fun r s _ => ?_
  cases r with
  | ok => exact pure_sound trivial
  | error => exact throw_sound

theorem commit_bind_sound {post : β → σ → Prop}
    (ran : Sound exec inv rely allowed safe result s fun _ _ => True)
    (after : ∀ s, Sound exec inv rely allowed safe (next ()) s post) :
    Sound exec inv rely allowed safe (commit result >>= next) s post :=
  (commit_sound ran).bind fun _ s _ => after s

theorem Sound.process {x : Fallible ε Q Res α} (sound : Sound exec inv rely allowed safe x s post) :
    Process.Sound exec inv rely allowed safe (fun _ _ => True) x.run s :=
  sound.mono fun _ _ _ => trivial

end Fallible

end Process

end UniSsh
