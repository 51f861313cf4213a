import UniSsh.Base.Logged
import Mathlib.Tactic.Common

/-!
# Editing a remote file outside

An edit downloads a file, watches the copy and sends it back, comparing the remote stamp with its
baseline. A version is its stamp, and a step is one call; others may write between any two. Which
change a poll sends, and a stop, do not matter here.
-/

namespace UniSsh.ExternalEdit

open Option

variable {V : Type} [DecidableEq V]

/-- How a call ends: `unread` is a `stat` that answers null, and `lost` was done and is reported as
failed. -/
inductive Reply where
  | ok
  | unread
  | throws
  | lost
  deriving DecidableEq

/-- The state of an edit; while it is downloading or uploading, the call that is waited for. -/
inductive EditState (V : Type) where
  | opening
  | download
  | baseline
  | watching
  | now (sent : V)
  | confirmedAbsent (sent : V)
  | stat (sent : V)
  | target (force : Bool) (sent : V)
  | before (force : Bool) (sent : V) (replace : Bool)
  | latest (force : Bool) (sent : V) (replace : Bool) (before : Option V)
  | commit (force : Bool) (sent : V) (replace : Bool)
  | committed
  | conflict
  | declined
  | error
  | closed

/-- An edit and its remote file; the copy came from `origin`, or `origin` was uploaded last. -/
structure LiveEdit (V : Type) where
  remote : Option V
  state : EditState V := .opening
  base : Option V := none
  reserved : Bool := false
  origin : Option V := none

inductive ConflictChoice (V : Type) where
  | overwrite
  | copy (created : V)
  | cancel

/-- What happens to an edit. A poll finds what it sends, or that the copy or its session is gone. -/
inductive Event (V : Type) where
  | foreign (remote : Option V)
  | returns (reply : Reply)
  | poll (sent : Option V)
  | retry
  | resolve (choice : ConflictChoice V) (sent : V)

/-- A commit, with what it replaced. -/
structure Commit (V : Type) where
  force : Bool
  replaced : Option V
  origin : Option V

/-- Unless it is forced, it replaces nothing or what the copy came from. -/
def Commit.Sound (c : Commit V) : Prop :=
  c.force = false → c.replaced = none ∨ c.replaced = c.origin

namespace LiveEdit

variable (w : LiveEdit V)

def patch (state : EditState V) (base : Option V) : LiveEdit V :=
  { w with state, base }

/-- What `remoteStamp` returns, unless it throws. -/
def remoteStamp : Reply → Option (Option V)
  | .ok => some w.remote
  | .unread => some none
  | _ => none

/-- Whether a commit takes place: without `replace` only onto a free name. -/
def commits (replace : Bool) (reply : Reply) : Bool :=
  (reply = .ok ∨ reply = .lost) ∧ (replace = true ∨ w.remote = none)

/-- The awaited call returns. Past a push's first check, a failure forgets the baseline. -/
def returns (reply : Reply) : LiveEdit V :=
  match w.state with
  | .opening => match w.remoteStamp reply with
    | some (some base) => w.patch .download (some base)
    | _ => { w with state := .closed }
  | .download =>
    if reply = .ok then { w with origin := w.remote, state := .baseline }
    else { w with state := .closed }
  | .baseline => match w.remoteStamp reply with
    | some (some base) => w.patch .watching (some base)
    | _ => { w with state := .closed }
  | .now sent => match w.remoteStamp reply with
    | none => w.patch .error w.base
    | some none => { w with state := .confirmedAbsent sent }
    | some (some now) =>
      if some now = w.base then { w with state := .target false sent }
      else w.patch .conflict w.base
  | .confirmedAbsent sent =>
    if reply = .ok ∧ w.remote = none then { w with state := .target false sent }
    else w.patch .error w.base
  | .stat sent =>
    if (w.remoteStamp reply).isSome then { w with state := .target true sent }
    else w.patch .error w.base
  | .target force sent => match w.remoteStamp reply with
    | some target => { w with state := .before force sent target.isSome }
    | none => w.patch .error none
  | .before force sent replace => match w.remoteStamp reply with
    | some before => { w with state := .latest force sent replace before }
    | none => w.patch .error none
  | .latest force sent replace before =>
    if w.remoteStamp reply = some before then { w with state := .commit force sent replace }
    else w.patch .error none
  | .commit _ sent replace =>
    if w.commits replace reply then
      let after := { w with remote := some sent, origin := some sent }
      if reply = .ok then { after with state := .committed } else after.patch .error none
    else w.patch .error none
  | .committed => match w.remoteStamp reply with
    | some base => { w.patch .watching base with reserved := false }
    | none => w.patch .error none
  | .declined => match w.remoteStamp reply with
    | some base => w.patch .watching base
    | none => w.patch .conflict w.base
  | _ => w

/-- A copy is sent to a name that was created for it, once. -/
def resolveConflict (sent : V) : ConflictChoice V → LiveEdit V
  | .overwrite => { w with state := .stat sent }
  | .copy created =>
    if w.reserved then { w with state := .stat sent }
    else { w with remote := some created, base := none, reserved := true, state := .stat sent }
  | .cancel => { w with state := .declined }

def step : Event V → LiveEdit V × List (Commit V)
  | .foreign remote => ({ w with remote }, [])
  | .returns reply => (w.returns reply, match w.state with
    | .commit force _ replace => if w.commits replace reply then [⟨force, w.remote, w.origin⟩] else []
    | _ => [])
  | .poll sent => (match w.state, sent with
    | .watching, some sent => { w with state := .now sent }
    | .watching, none => { w with state := .error }
    | _, _ => w, [])
  | .retry => (match w.state with | .error => { w with state := .watching } | _ => w, [])
  | .resolve choice sent =>
    (match w.state with | .conflict => w.resolveConflict sent choice | _ => w, [])

/-- Nobody writes between a download or commit and the next baseline, between the compared stamp and
the staged one, or after the last; not both stamps are unread, and no conflict is declined. -/
def calm : Event V → Bool
  | .foreign _ => match w.state with
    | .baseline | .target false _ | .before false .. | .commit false .. | .committed => false
    | _ => true
  | .returns reply => match w.state with
    | .latest false _ _ none => reply ≠ .unread
    | _ => true
  | .resolve .cancel _ => false
  | _ => true

/-- Nothing, or what the copy came from. -/
def Ours (version : Option V) : Prop :=
  version = none ∨ version = w.origin

/-- What holds between calm steps. -/
def Inv : Prop :=
  match w.state with
  | .baseline | .committed => w.remote = w.origin
  | .watching | .now _ | .confirmedAbsent _ | .stat _ | .conflict | .error => w.Ours w.base
  | .target false _ | .before false .. | .commit false .. => w.Ours w.remote
  | .latest false _ _ before => w.Ours before
  | .declined => False
  | _ => True

variable {w}

omit [DecidableEq V] in
theorem remoteStamp_eq (read : w.remoteStamp reply = some stamp) :
    stamp = none ∨ stamp = w.remote := by
  cases reply <;> cases read
  · exact .inr rfl
  · exact .inl rfl

theorem Inv.returns (inv : w.Inv) (isCalm : w.calm (.returns reply) = true) :
    (w.returns reply).Inv := by
  have failed : (w.patch .error none).Inv := .inl rfl
  unfold LiveEdit.returns
  unfold calm at isCalm
  unfold Inv at inv
  cases isState : w.state <;> simp only [isState] at inv isCalm ⊢
  case opening | download => split <;> trivial
  case baseline =>
    split
    · next read =>
      have ours := remoteStamp_eq read
      rwa [inv] at ours
    · trivial
  case now =>
    split
    · exact inv
    · exact inv
    · next read =>
      split
      · next same =>
        rcases remoteStamp_eq read with absent | isRemote
        · cases absent
        · rwa [← same, isRemote] at inv
      · exact inv
  case confirmedAbsent =>
    split
    · next absent => exact .inl absent.2
    · exact inv
  case stat =>
    split
    · trivial
    · exact inv
  case target force _ =>
    split
    · cases force <;> exact inv
    · exact failed
  case before force _ _ =>
    split
    · next read =>
      cases force with
      | true => trivial
      | false =>
        rcases remoteStamp_eq read with rfl | rfl
        · exact .inl rfl
        · exact inv
    · exact failed
  case latest force _ _ before =>
    split
    · next read =>
      cases force with
      | true => trivial
      | false =>
        cases reply with
        | ok => exact some.inj read ▸ inv
        | unread =>
          cases read
          cases isCalm
        | _ => cases read
    · exact failed
  case commit =>
    split
    · split
      · rfl
      · exact .inl rfl
    · exact failed
  case committed =>
    split
    · next read =>
      have ours := remoteStamp_eq read
      rwa [inv] at ours
    · exact failed
  all_goals
    unfold Inv
    rw [isState]
    exact inv

theorem Inv.step (inv : w.Inv) (isCalm : w.calm event = true) :
    (w.step event).1.Inv := by
  obtain ⟨_, state, _, reserved, _⟩ := w
  cases event with
  | foreign remote =>
    cases state with
    | baseline | committed => cases isCalm
    | target force | before force | commit force =>
      cases force with
      | false => cases isCalm
      | true => trivial
    | latest force => cases force <;> exact inv
    | _ => exact inv
  | returns => exact inv.returns isCalm
  | poll sent => cases sent <;> cases state <;> exact inv
  | retry => cases state <;> exact inv
  | resolve choice sent =>
    cases state with
    | conflict =>
      cases choice with
      | overwrite => exact inv
      | copy =>
        cases reserved with
        | false => exact .inl rfl
        | true => exact inv
      | cancel => cases isCalm
    | _ => exact inv

theorem Inv.commits (inv : w.Inv) (member : c ∈ (w.step event).2) :
    c.Sound := by
  intro unforced
  cases event with
  | returns =>
    simp only [LiveEdit.step] at member
    split at member
    · next isState =>
      split at member
      · cases List.mem_singleton.mp member
        cases unforced
        unfold Inv at inv
        rwa [isState] at inv
      · cases member
    · cases member
  | _ => cases member

/-- A commit that is not forced replaces nothing or what the copy came from, and a foreign version
that a stamp sees stops the push, as does a deletion between the last two stamps. -/
theorem unforced_commit_replaces_its_origin (remote : Option V) (events : List (Event V))
    (isCalm : Logged.Each step (fun w event => w.calm event = true) { remote } events) :
    let r := Logged.run step ⟨{ remote }, []⟩ events
    (∀ c ∈ r.log, c.Sound) ∧
      (r.state.remote ≠ r.state.origin →
        (∀ sent, r.state.state = .now sent → r.state.remote ≠ none →
          (r.state.returns .ok).state = .conflict) ∧
        ∀ sent replace before, r.state.state = .latest false sent replace before →
          r.state.remote ≠ none ∨ before ≠ none → (r.state.returns .ok).state = .error) := by
  intro r
  have kept (w : LiveEdit V) (log : List (Commit V)) (event : Event V) (isCalm : w.calm event = true)
      (before : w.Inv ∧ ∀ c ∈ log, c.Sound) :
      (w.step event).1.Inv ∧ ∀ c ∈ (w.step event).2.reverse ++ log, c.Sound := by
    refine ⟨before.1.step isCalm, fun c member => ?_⟩
    rcases List.mem_append.mp member with new | old
    · exact before.1.commits (List.mem_reverse.mp new)
    · exact before.2 c old
  have start : Inv ({ remote } : LiveEdit V) := trivial
  obtain ⟨inv, commits⟩ := Logged.Each.invariant (l := ⟨{ remote }, []⟩) kept ⟨start, nofun⟩ isCalm
  refine ⟨commits, fun foreign => ?_⟩
  unfold Inv at inv
  constructor
  · intro sent isState there
    rw [isState] at inv
    have differs : r.state.remote ≠ r.state.base := by
      intro same
      rw [← same] at inv
      exact inv.elim there foreign
    obtain ⟨version, isRemote⟩ := ne_none_iff_exists'.mp there
    rw [isRemote] at differs
    simp only [LiveEdit.returns, isState, remoteStamp, isRemote, if_neg differs]
    rfl
  · intro sent replace before isState seen
    rw [isState] at inv
    have differs : r.state.remoteStamp .ok ≠ some before := by
      rintro ⟨⟩
      have there : r.state.remote ≠ none := seen.elim id id
      exact inv.elim there foreign
    simp only [LiveEdit.returns, isState, if_neg differs]
    rfl

/-- A quiet edit saves twice, and then notices what another wrote. -/
theorem quiet_edit_replaces_its_origin :
    let events : List (Event Nat) := [.returns .ok, .returns .ok, .returns .ok]
    let save (v : Nat) : List (Event Nat) := [.poll (some v), .returns .ok, .returns .ok,
      .returns .ok, .returns .ok, .returns .ok, .returns .ok]
    let run := Logged.run step ⟨{ remote := some 1 }, []⟩
      (events ++ save 2 ++ save 3 ++ [.foreign (some 7), .poll (some 4)])
    run.log = [⟨false, some 2, some 2⟩, ⟨false, some 1, some 1⟩] ∧ (∀ c ∈ run.log, c.Sound) ∧
      (run.state.returns .ok).state = .conflict := by
  intro events save run
  obtain ⟨sound, seen⟩ := unforced_commit_replaces_its_origin (some 1)
    (events ++ save 2 ++ save 3 ++ [.foreign (some 7), .poll (some 4)]) (by decide)
  exact ⟨rfl, sound, (seen (by decide)).1 4 rfl nofun⟩

/-- A write after the comparison with the baseline is overwritten, though both later stamps see it. -/
theorem late_write_overwritten :
    (Logged.run step ⟨{ remote := some 1 }, []⟩ [.returns .ok, .returns .ok, .returns .ok,
      .poll (some 2), .returns .ok, .foreign (some 7), .returns .ok, .returns .ok, .returns .ok,
      .returns .ok]).log =
    [⟨false, some 7, some 1⟩] := by
  rfl

end LiveEdit

end UniSsh.ExternalEdit
