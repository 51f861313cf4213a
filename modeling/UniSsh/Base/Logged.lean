import Mathlib.Logic.Basic

/-!
# Machines with a log

The log of a machine holds its events, the latest first. `Justified` states a property of events
and what came before them; `Logged.invariant` proves one of whole runs.
-/

namespace UniSsh

variable {σ Op E : Type}

/-- A state and the events that led to it, the latest first. -/
structure Logged (σ E : Type) where
  state : σ
  log : List E

namespace Logged

/-- One operation, with its events in the log. -/
def act (step : σ → Op → σ × List E) (l : Logged σ E) (op : Op) : Logged σ E where
  state := (step l.state op).1
  log := (step l.state op).2.reverse ++ l.log

/-- The operations of a run, in order. -/
def run (step : σ → Op → σ × List E) (l : Logged σ E) (ops : List Op) : Logged σ E :=
  ops.foldl (act step) l

variable {step : σ → Op → σ × List E} {l : Logged σ E}

theorem run_append (ops later : List Op) :
    run step l (ops ++ later) = run step (run step l ops) later :=
  List.foldl_append

variable {inv : σ → List E → Prop}

/-- What every operation keeps holds after a run. -/
theorem invariant (kept : ∀ s log op, inv s log → inv (step s op).1 ((step s op).2.reverse ++ log))
    (start : inv l.state l.log) (ops : List Op) :
    inv (run step l ops).state (run step l ops).log := by
  induction ops generalizing l with
  | nil => exact start
  | cons op _ ih => exact ih (kept l.state l.log op start)

/-- Every operation of a run satisfies a condition in the state it finds. -/
def Each (step : σ → Op → σ × List E) (allowed : σ → Op → Prop) : σ → List Op → Prop
  | _, [] => True
  | s, op :: rest => allowed s op ∧ Each step allowed (step s op).1 rest

instance instDecidableEach (allowed : σ → Op → Prop) [∀ s op, Decidable (allowed s op)] :
    (s : σ) → (ops : List Op) → Decidable (Each step allowed s ops)
  | _, [] => .isTrue trivial
  | s, op :: rest =>
    have := instDecidableEach allowed (step s op).1 rest
    inferInstanceAs (Decidable (_ ∧ _))

variable {allowed : σ → Op → Prop} {ops : List Op}

theorem Each.of_append (l : Logged σ E) (each : Each step allowed l.state (ops ++ later)) :
    Each step allowed l.state ops ∧ Each step allowed (run step l ops).state later := by
  induction ops generalizing l with
  | nil => exact ⟨trivial, each⟩
  | cons op _ ih =>
    obtain ⟨here, after⟩ := each
    obtain ⟨first, second⟩ := ih (act step l op) after
    exact ⟨⟨here, first⟩, second⟩

theorem Each.and {other : σ → Op → Prop} (each : Each step allowed s ops)
    (too : Each step other s ops) : Each step (fun s op => allowed s op ∧ other s op) s ops := by
  induction ops generalizing s with
  | nil => trivial
  | cons _ _ ih => exact ⟨⟨each.1, too.1⟩, ih each.2 too.2⟩

/-- What every operation keeps that satisfies the condition holds after a run of such. -/
theorem Each.invariant (kept : ∀ s log op, allowed s op → inv s log →
      inv (step s op).1 ((step s op).2.reverse ++ log)) (start : inv l.state l.log)
    (each : Each step allowed l.state ops) : inv (run step l ops).state (run step l ops).log := by
  induction ops generalizing l with
  | nil => exact start
  | cons op _ ih =>
    exact ih (l := act step l op) (kept l.state l.log op each.1 start) each.2

/-- A run only adds to the log. -/
theorem log_suffix (l : Logged σ E) (ops : List Op) : l.log <:+ (run step l ops).log := by
  induction ops generalizing l with
  | nil => exact List.suffix_refl _
  | cons op _ ih => exact (List.suffix_append _ _).trans (ih (act step l op))

end Logged

/-- Every event is justified by what happened before it. -/
def Justified (P : E → List E → Prop) : List E → Prop
  | [] => True
  | e :: past => P e past ∧ Justified P past

theorem Justified.of_append {P : E → List E → Prop} (justified : Justified P (late ++ e :: past)) :
    P e past := by
  induction late with
  | nil => exact justified.1
  | cons _ _ ih => exact ih justified.2

end UniSsh
