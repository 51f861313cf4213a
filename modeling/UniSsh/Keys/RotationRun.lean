import UniSsh.Base.Logged
import UniSsh.Keys.RotationPlan
import Mathlib.Data.Finset.Insert

/-!
# A run of a key rotation

A run takes every target through deploy, verify, remove and confirm. The log says which steps
began and how they landed, and the place of a target which of its steps passed (`Fits`).
-/

namespace UniSsh.Keys

open List

/-- Why a step did not pass. -/
inductive StepFailure where
  | noResult
  | timedOut
  | error (message : String)
  | locked
  | oldKeyStillPresent
  | noAuthorizedKeys
  | removeNeedsSecondFactor
  | oldKeyStillAccepted
  | oldKeyCheckFailed (message : Option String)
  deriving DecidableEq

/-- The place of a target in a run. -/
inductive TargetState where
  | pending (step : RotationStep)
  | running (step : RotationStep)
  | failed (step : RotationStep) (failure : StepFailure)
  | switched
  /-- Stopped before the old key was removed; the last step that passed. -/
  | keptOld (after : Option RotationStep)
  /-- Stopped after the old line was removed, and before the old key was tried. -/
  | unconfirmed
  deriving DecidableEq

/-- The steps a run takes, and on which targets. -/
structure RunScope where
  first : RotationStep
  last : RotationStep
  only : Option (List String)

structure RotationRun where
  /-- In the order of the plan. -/
  states : List (String × TargetState)
  /-- Targets a login with the candidate passed on. -/
  verified : Finset String
  /-- The hops of each target that use the key and are in the run. -/
  hops : List (String × List String)
  cancelled : Bool
  last : RotationStep

abbrev StepOutcome := Except StepFailure Unit

/-- The place of a target the run stops at, after its last passed step. -/
def stoppedAt (after : Option RotationStep) : TargetState :=
  match after with
  | some .remove => .unconfirmed
  | some .deploy | some .verify | some .confirm | none => .keptOld after

def atDeployOrVerify : TargetState → Bool
  | .pending .deploy | .pending .verify | .running .deploy | .running .verify => true
  | _ => false

/-- The place of the first entry with this id is set. -/
def setState (id : String) (state : TargetState) :
    List (String × TargetState) → List (String × TargetState)
  | [] => []
  | (x, s) :: rest => if x = id then (x, state) :: rest else (x, s) :: setState id state rest

namespace RotationRun

def start (plan : RotationPlan) (lowercase : String → String) (scope : RunScope) : RotationRun :=
  let states := (plan.targets.filter fun t => (scope.only.map fun o => decide (t.id ∈ o)).getD true).map
    fun t => (t.id, TargetState.pending scope.first)
  { states
    verified := ∅
    hops := states.map fun entry =>
      (entry.1, (plan.keyHops lowercase entry.1).filter fun h => states.any fun x => x.1 = h)
    cancelled := false
    last := scope.last }

variable (run : RotationRun) (id : String)

def state : Option TargetState :=
  (run.states.find? fun entry => entry.1 = id).map Prod.snd

def hopsOf : List String :=
  ((run.hops.find? fun entry => entry.1 = id).map Prod.snd).getD []

def set (state : TargetState) : RotationRun :=
  { run with states := setState id state run.states }

/-- Some target waits for, or runs, its deploy or verify. -/
def early : Bool := run.states.any fun entry => atDeployOrVerify entry.2

def hopEarly : Bool :=
  (run.hopsOf id).any fun h => (run.state h).any atDeployOrVerify

def isRunning : TargetState → Bool
  | .running _ => true
  | _ => false

/-- Some step in flight goes through this target as a hop. -/
def routedThrough : Bool :=
  run.states.any fun entry => isRunning entry.2 ∧ id ∈ run.hopsOf entry.1

def removing : Bool := run.states.any fun entry => entry.2 = .running .remove

/-- Whether the waiting step of a target may start. -/
def mayStart : RotationStep → Bool
  | .remove => !run.early && decide (id ∈ run.verified) && !run.routedThrough id
  | .confirm => true
  | .deploy | .verify => !run.removing && !run.hopEarly id

def startable : List (String × RotationStep) :=
  if run.cancelled then []
  else run.states.filterMap fun entry =>
    match entry.2 with
    | .pending step =>
      if run.last.index < step.index then none
      else if run.mayStart entry.1 step then some (entry.1, step) else none
    | _ => none

def beginStep : RotationRun × Option RotationStep :=
  match run.startable.find? fun entry => entry.1 = id with
  | some (_, step) => (run.set id (.running step), some step)
  | none => (run, none)

/-- Where a target goes when its step in flight lands. -/
def landing (step : RotationStep) (outcome : StepOutcome) : TargetState :=
  match outcome with
  | .ok () =>
    if step = .confirm then .switched
    else if run.cancelled then stoppedAt (some step)
    else match step.next with
      | some next => .pending next
      | none => .switched
  | .error failure =>
    if step = .confirm ∨ run.cancelled = false then .failed step failure
    else stoppedAt step.previous

def recordStep (step : RotationStep) (outcome : StepOutcome) : RotationRun :=
  if run.state id ≠ some (.running step) then run
  else
    let verified := if outcome.isOk ∧ step = .verify then insert id run.verified else run.verified
    { run.set id (run.landing step outcome) with verified }

/-- A failed target waits again at the step that failed. -/
def retry : RotationRun :=
  if run.cancelled then run
  else match run.state id with
    | some (.failed step _) => run.set id (.pending step)
    | _ => run

def cancelState : TargetState → TargetState
  | .pending step => stoppedAt step.previous
  | state => state

/-- Nothing new starts, and what waits is stopped. -/
def cancel : RotationRun :=
  { run with
    states := run.states.map fun entry => (entry.1, cancelState entry.2)
    cancelled := true }

def extendTo (last : RotationStep) : RotationRun := { run with last := run.last.max last }

end RotationRun

/-! ## Runs and their logs -/

/-- An operation on a run. -/
inductive RunOp where
  | beginStep (id : String)
  | recordStep (id : String) (step : RotationStep) (outcome : StepOutcome)
  | retry (id : String)
  | cancel
  | extendTo (last : RotationStep)

/-- What an operation did: a step began, or one in flight landed, or the run was stopped. -/
inductive RunEvent where
  | began (id : String) (step : RotationStep)
  | landed (id : String) (step : RotationStep) (passed : Bool)
  | cancelled
  deriving DecidableEq

def RotationRun.act (run : RotationRun) : RunOp → RotationRun × List RunEvent
  | .beginStep id => ((run.beginStep id).1, (run.beginStep id).2.toList.map (.began id))
  | .recordStep id step outcome =>
    (run.recordStep id step outcome,
      if run.state id = some (.running step) then [.landed id step outcome.isOk] else [])
  | .retry id => (run.retry id, [])
  | .cancel => (run.cancel, [.cancelled])
  | .extendTo last => (run.extendTo last, [])

/-- A run of a plan in a scope, after some operations. -/
def runOf (plan : RotationPlan) (lowercase : String → String) (scope : RunScope)
    (ops : List RunOp) : Logged RotationRun RunEvent :=
  Logged.run RotationRun.act { state := .start plan lowercase scope, log := [] } ops

/-! ## Places of targets -/

section States

variable {states : List (String × TargetState)} {id : String} {state : TargetState}

theorem setState_ids (id : String) (state : TargetState) (states : List (String × TargetState)) :
    (setState id state states).map Prod.fst = states.map Prod.fst := by
  induction states with
  | nil => rfl
  | cons entry _ ih =>
    obtain ⟨x, s⟩ := entry
    unfold setState
    split
    · rfl
    · rw [map_cons, map_cons, ih]

theorem mem_setState (distinct : (states.map Prod.fst).Nodup) {entry : String × TargetState}
    (listed : entry ∈ setState id state states) :
    entry = (id, state) ∨ entry ∈ states ∧ entry.1 ≠ id := by
  induction states with
  | nil => cases listed
  | cons first _ ih =>
    obtain ⟨x, s⟩ := first
    obtain ⟨absent, distinct⟩ := nodup_cons.mp distinct
    unfold setState at listed
    split at listed
    · next isId =>
      subst isId
      rcases mem_cons.mp listed with rfl | old
      · exact .inl rfl
      · refine .inr ⟨mem_cons_of_mem _ old, fun same => absent ?_⟩
        exact mem_map.mpr ⟨entry, old, same⟩
    · next other =>
      rcases mem_cons.mp listed with rfl | old
      · exact .inr ⟨mem_cons_self, other⟩
      · exact (ih distinct old).imp_right fun kept => ⟨mem_cons_of_mem _ kept.1, kept.2⟩

theorem find_setState_self (id : String) (state : TargetState)
    (states : List (String × TargetState)) :
    ((setState id state states).find? fun entry => entry.1 = id).map Prod.snd =
      (states.find? fun entry => entry.1 = id).map fun _ => state := by
  induction states with
  | nil => rfl
  | cons first _ ih =>
    obtain ⟨x, s⟩ := first
    unfold setState
    by_cases isId : x = id
    · simp [isId]
    · simp [isId, ih]

theorem find_setState_other (different : other ≠ id) (state : TargetState)
    (states : List (String × TargetState)) :
    ((setState id state states).find? fun entry => entry.1 = other) =
      states.find? fun entry => entry.1 = other := by
  induction states with
  | nil => rfl
  | cons first _ ih =>
    obtain ⟨x, s⟩ := first
    unfold setState
    by_cases isId : x = id
    · simp [isId, different.symm]
    · by_cases isOther : x = other
      · simp [isOther, different]
      · simp [isId, isOther, ih]

end States

namespace RotationRun

variable {run : RotationRun} {id : String} {step : RotationStep}

theorem state_set_self (state : TargetState) :
    (run.set id state).state id = (run.state id).map fun _ => state := by
  unfold RotationRun.state RotationRun.set
  rw [find_setState_self, Option.map_map]
  rfl

theorem state_set_other (different : other ≠ id) (state : TargetState) :
    (run.set id state).state other = run.state other := by
  unfold RotationRun.state RotationRun.set
  rw [find_setState_other different]

theorem mem_of_state {state : TargetState} (found : run.state id = some state) :
    (id, state) ∈ run.states := by
  obtain ⟨entry, listed, rfl⟩ := Option.map_eq_some_iff.mp found
  have isId : entry.1 = id := by simpa using find?_some listed
  rw [← isId]
  exact mem_of_find?_eq_some listed

theorem state_of_mem {state : TargetState} (distinct : (run.states.map Prod.fst).Nodup)
    (listed : (id, state) ∈ run.states) : run.state id = some state := by
  unfold RotationRun.state
  generalize run.states = states at distinct listed
  induction states with
  | nil => cases listed
  | cons first _ ih =>
    obtain ⟨absent, distinct⟩ := nodup_cons.mp distinct
    rcases mem_cons.mp listed with rfl | old
    · simp
    · have other : first.1 ≠ id := by
        rintro rfl
        exact absent (mem_map.mpr ⟨_, old, rfl⟩)
      rw [find?_cons_of_neg (by simpa using other)]
      exact ih distinct old

theorem beginStep_eq_some (began : run.beginStep id = (run', some step)) :
    run' = run.set id (.running step) ∧ (id, .pending step) ∈ run.states ∧
      run.cancelled = false ∧ run.mayStart id step = true := by
  unfold beginStep at began
  split at began
  · next x found listed =>
    cases began
    have isId : x = id := by simpa using find?_some listed
    subst isId
    have startable := mem_of_find?_eq_some listed
    unfold RotationRun.startable at startable
    split at startable
    · cases startable
    next going =>
    obtain ⟨⟨_, s⟩, inRun, taken⟩ := mem_filterMap.mp startable
    cases s with
    | pending =>
      dsimp only at taken
      split at taken
      · cases taken
      split at taken
      · next may =>
        cases taken
        exact ⟨rfl, inRun, Bool.eq_false_iff.mpr going, may⟩
      · cases taken
    | _ => cases taken
  · cases began

theorem beginStep_eq_none (began : run.beginStep id = (run', none)) :
    run' = run := by
  unfold beginStep at began
  split at began
  · cases began
  · cases began
    rfl

end RotationRun

/-! ## What a place says about the log -/

/-- A target at a step: the removal of its old key passed exactly when the step is the last. -/
def Stands (log : List RunEvent) (id : String) (step : RotationStep) : Prop :=
  .landed id .remove true ∈ log ↔ step = .confirm

/-- What the place of a target says about its own steps. -/
def Fits (log : List RunEvent) (id : String) : TargetState → Prop
  | .pending step | .failed step _ => Stands log id step
  | .running step => Stands log id step ∧
      (step = .confirm → [.began id .confirm, .landed id .remove true].Sublist log)
  | .switched => [.landed id .confirm true, .began id .confirm, .landed id .remove true].Sublist log
  | .keptOld _ => .landed id .remove true ∉ log
  | .unconfirmed => .landed id .remove true ∈ log

variable {log : List RunEvent} {id : String} {step : RotationStep}

theorem Stands.cons {e : RunEvent} (stands : Stands log id step) (other : e ≠ .landed id .remove true) :
    Stands (e :: log) id step := by
  unfold Stands
  rw [mem_cons, or_iff_right other.symm]
  exact stands

/-- Events that do not pass the target's remove change nothing. -/
theorem Fits.cons {e : RunEvent} (fits : Fits log id state) (other : e ≠ .landed id .remove true) :
    Fits (e :: log) id state := by
  cases state with
  | running => exact ⟨fits.1.cons other, fun last => (fits.2 last).cons _⟩
  | switched => exact List.Sublist.cons _ fits
  | keptOld => exact fun listed => fits ((mem_cons.mp listed).resolve_left other.symm)
  | unconfirmed => exact mem_cons_of_mem _ fits
  | _ => exact Stands.cons fits other

theorem Stands.stopped (stands : Stands log id step) : Fits log id (stoppedAt step.previous) := by
  cases step with
  | deploy => exact fun passed => nomatch stands.mp passed
  | verify => exact fun passed => nomatch stands.mp passed
  | remove => exact fun passed => nomatch stands.mp passed
  | confirm => exact stands.mpr rfl

theorem Fits.landing (run : RotationRun) (fits : Fits log id (.running step))
    (outcome : StepOutcome) :
    Fits (.landed id step outcome.isOk :: log) id (run.landing step outcome) := by
  obtain ⟨stands, confirming⟩ := fits
  cases outcome with
  | error failure =>
    have kept : Stands (.landed id step (Except.error failure : StepOutcome).isOk :: log) id step :=
      stands.cons (by simp [Except.isOk, Except.toBool])
    unfold RotationRun.landing
    dsimp only
    split
    · exact kept
    · exact kept.stopped
  | ok _ =>
    -- What passed is in the log; it is the remove exactly when the next step is the last.
    have isOk : (Except.ok () : StepOutcome).isOk = true := rfl
    unfold RotationRun.landing
    rw [isOk]
    cases step with
    | confirm => exact (confirming rfl).cons_cons _
    | remove =>
      have passed : RunEvent.landed id .remove true ∈ .landed id .remove true :: log :=
        mem_cons_self
      simp only [reduceCtorEq, if_false, RotationStep.next]
      split
      · exact passed
      · exact iff_of_true passed rfl
    | verify =>
      have kept := stands.cons (e := .landed id .verify true) (by simp)
      simp only [reduceCtorEq, if_false, RotationStep.next]
      split
      · exact fun passed => nomatch kept.mp passed
      · exact iff_of_false (fun passed => nomatch kept.mp passed) (by decide)
    | deploy =>
      have kept := stands.cons (e := .landed id .deploy true) (by simp)
      simp only [reduceCtorEq, if_false, RotationStep.next]
      split
      · exact fun passed => nomatch kept.mp passed
      · exact iff_of_false (fun passed => nomatch kept.mp passed) (by decide)

/-! ## The invariant of a run -/

/-- What justifies an event: a remove begins on a verified target, and nothing begins in a
stopped run. -/
def Lawful (e : RunEvent) (past : List RunEvent) : Prop :=
  ∀ id step, e = .began id step →
    .cancelled ∉ past ∧ (step = .remove → .landed id .verify true ∈ past)

structure Inv (run : RotationRun) (log : List RunEvent) : Prop where
  distinct : (run.states.map Prod.fst).Nodup
  fits : ∀ id state, (id, state) ∈ run.states → Fits log id state
  verified : ∀ id, id ∈ run.verified ↔ .landed id .verify true ∈ log
  cancelled : .cancelled ∈ log → run.cancelled = true
  lawful : Justified Lawful log

variable {run : RotationRun}

theorem Inv.begins (inv : Inv run log) (began : run.beginStep id = (run', some step)) :
    Inv run' (.began id step :: log) := by
  obtain ⟨rfl, waiting, going, may⟩ := RotationRun.beginStep_eq_some began
  refine ⟨?_, ?_, ?_, ?_, ?_, inv.lawful⟩
  · rw [RotationRun.set, setState_ids]
    exact inv.distinct
  · intro other state listed
    rcases mem_setState inv.distinct listed with same | ⟨old, -⟩
    · cases same
      have stands : Stands log id step := inv.fits id _ waiting
      refine ⟨stands.cons (by simp), fun last => ?_⟩
      subst last
      exact (singleton_sublist.mpr (stands.mpr rfl)).cons_cons _
    · exact (inv.fits other state old).cons (by simp)
  · intro other
    rw [mem_cons, or_iff_right (by simp)]
    exact inv.verified other
  · intro stopped
    exact inv.cancelled ((mem_cons.mp stopped).resolve_left (by simp))
  · intro _ _ same
    cases same
    refine ⟨fun stopped => Bool.eq_false_iff.mp going (inv.cancelled stopped), ?_⟩
    rintro rfl
    have ready : (!run.early) = true ∧ id ∈ run.verified := by
      simp only [RotationRun.mayStart, Bool.and_eq_true, decide_eq_true_eq] at may
      exact may.1
    exact (inv.verified id).mp ready.2

theorem Inv.records (inv : Inv run log) {outcome : StepOutcome}
    (inFlight : run.state id = some (.running step)) :
    Inv (run.recordStep id step outcome) (.landed id step outcome.isOk :: log) := by
  unfold RotationRun.recordStep
  rw [if_neg (not_not.mpr inFlight)]
  refine ⟨?_, ?_, ?_, ?_, ?_, inv.lawful⟩
  · dsimp only [RotationRun.set]
    rw [setState_ids]
    exact inv.distinct
  · intro other state listed
    have running := inv.fits id _ (RotationRun.mem_of_state inFlight)
    rcases mem_setState inv.distinct listed with same | ⟨old, different⟩
    · cases same
      exact running.landing run outcome
    · refine (inv.fits other state old).cons fun same => ?_
      injection same with isId
      exact different isId.symm
  · intro other
    rw [mem_cons]
    by_cases verifies : outcome.isOk = true ∧ step = .verify
    · rw [if_pos verifies, Finset.mem_insert, inv.verified other, verifies.1, verifies.2]
      simp
    · rw [if_neg verifies, inv.verified other, or_iff_right]
      intro same
      injection same with _ isVerify passed
      exact verifies ⟨passed.symm, isVerify.symm⟩
  · intro stopped
    exact inv.cancelled ((mem_cons.mp stopped).resolve_left (by simp))
  · intro _ _ same
    cases same

theorem Inv.retries (inv : Inv run log) (id : String) : Inv (run.retry id) log := by
  unfold RotationRun.retry
  split
  · exact inv
  split
  · next step failure failed =>
    refine ⟨?_, ?_, inv.verified, inv.cancelled, inv.lawful⟩
    · rw [RotationRun.set, setState_ids]
      exact inv.distinct
    · intro other state listed
      rcases mem_setState inv.distinct listed with same | ⟨old, -⟩
      · cases same
        have stands : Stands log id step := inv.fits id _ (RotationRun.mem_of_state failed)
        exact stands
      · exact inv.fits other state old
  · exact inv

theorem Inv.cancels (inv : Inv run log) : Inv run.cancel (.cancelled :: log) := by
  refine ⟨?_, ?_, ?_, fun _ => rfl, ?_, inv.lawful⟩
  · have ids : run.cancel.states.map Prod.fst = run.states.map Prod.fst := by
      unfold RotationRun.cancel
      rw [map_map]
      rfl
    rw [ids]
    exact inv.distinct
  · intro id _ listed
    obtain ⟨⟨target, old⟩, was, same⟩ := mem_map.mp listed
    cases same
    have fits := (inv.fits target old was).cons (e := .cancelled) (by simp)
    cases old with
    | pending => exact Stands.stopped fits
    | _ => exact fits
  · intro id
    rw [mem_cons, or_iff_right (by simp)]
    exact inv.verified id
  · intro _ _ same
    cases same

theorem Inv.act (run : RotationRun) (log : List RunEvent) (op : RunOp) (inv : Inv run log) :
    Inv (run.act op).1 ((run.act op).2.reverse ++ log) := by
  cases op with
  | beginStep id =>
    rcases began : run.beginStep id with ⟨_, _ | step⟩
    · cases RotationRun.beginStep_eq_none began
      simp only [RotationRun.act, began]
      exact inv
    · simp only [RotationRun.act, began]
      exact inv.begins began
  | recordStep id step =>
    by_cases inFlight : run.state id = some (.running step)
    · simp only [RotationRun.act, inFlight, if_true]
      exact inv.records inFlight
    · simp only [RotationRun.act, inFlight, if_false, RotationRun.recordStep, ne_eq,
        not_false_eq_true, if_true]
      exact inv
  | retry id => exact inv.retries id
  | cancel => exact inv.cancels
  | extendTo => exact { inv with }

variable {plan : RotationPlan} {lowercase : String → String} {scope : RunScope}

theorem start_ids {lowercase : String → String} :
    ((RotationRun.start plan lowercase scope).states.map Prod.fst).Nodup := by
  have ids : (RotationRun.start plan lowercase scope).states.map Prod.fst =
      (plan.targets.filter fun t =>
        (scope.only.map fun o => decide (t.id ∈ o)).getD true).map RotationTarget.id := by
    unfold RotationRun.start
    rw [map_map]
    rfl
  rw [ids]
  exact plan.distinct.sublist (filter_sublist.map _)

theorem Inv.start (early : scope.first = .deploy ∨ scope.first = .verify) :
    Inv (.start plan lowercase scope) [] := by
  refine ⟨start_ids, ?_, fun id => by simp [RotationRun.start],
    fun stopped => (not_mem_nil stopped).elim, trivial⟩
  intro _ _ listed
  obtain ⟨t, -, same⟩ := mem_map.mp listed
  cases same
  refine iff_of_false not_mem_nil fun last => ?_
  rcases early with first | first <;> cases first.symm.trans last

theorem Inv.of_run (early : scope.first = .deploy ∨ scope.first = .verify) (ops : List RunOp) :
    Inv (runOf plan lowercase scope ops).state (runOf plan lowercase scope ops).log :=
  Logged.invariant Inv.act (Inv.start early) ops

namespace Sample

/-- Every name of the sample is in lower case already. -/
def lower (name : String) : String := name

/-- A host behind a bastion, both logging in with the key. -/
def bastion : JumpHost where
  host := "b"
  port := 22
  user := "root"
  auth := .agent "vault" "key"
  hopRef := none
def web : ConnectionProfile where
  profileId := "web"
  uid := "web"
  label := "web"
  host := "w"
  port := 22
  user := "root"
  auth := .key "key"
  usernameTemplate := none
  jumps := [bastion]
  proxy := none
def webPlan : RotationPlan := planRotationIn lower [web] "vault" "key" ["vault"]
def fullScope : RunScope := { first := .deploy, last := .confirm, only := none }

/-- The bastion takes the candidate and proves it. -/
def bastionVerified : List RunOp :=
  [.beginStep "root@b:22", .recordStep "root@b:22" .deploy (.ok ()), .beginStep "root@b:22",
    .recordStep "root@b:22" .verify (.ok ())]

end Sample

open Sample

end UniSsh.Keys
