import UniSsh.Automation.BrokerRuns

/-!
# What one section does

`Broker.Frame` says once, for every section of every thread, where the runs, threads and grants
found after it come from.
-/

namespace UniSsh.Automation

open Table

/-- Past the call of `Connection::exec`, made or given up. -/
def Stage.spent : Stage → Bool
  | .running | .failed _ | .ended => true
  | _ => false

/-- The same thread later on. -/
structure Worker.Continues (w w' : Worker) : Prop where
  target : w'.target = w.target
  deadline : w'.deadline = w.deadline
  command : w'.command = w.command
  stdin : w'.stdin = w.stdin
  spent : w.stage.spent = true → w'.stage.spent = true

theorem Worker.Continues.refl (w : Worker) : w.Continues w := ⟨rfl, rfl, rfl, rfl, id⟩

namespace Broker

/-- The call a thread is going to make. -/
def call (id : Bytes) (w : Worker) : Exec :=
  { w with run := id, connection := w.target }

/-- The start of a run allows a call: an unexpired grant of the run's epoch has the target, the run
waits for it, is neither cancelled nor late, and text and session are the owner's. -/
def Authorises (b : Broker) (mode : ApprovalMode) (x : Exec) : Prop :=
  ∃ run grant, b.runs[x.run]? = some run ∧
    (run.state = mode.waits ∧ b.cancelled x.run = false ∧ b.now < run.approvalUntil) ∧
    b.grants[run.owner]? = some grant ∧ grant.epoch = run.epoch ∧ grant.unexpired b.now = true ∧
    grant.approvalMode = mode ∧ grant.targets[run.target]? = some x.connection ∧
    (∀ t, grant.expires = some t → x.deadline ≤ t) ∧
    x.command = withEnv run.command run.cwd run.env ∧ x.stdin = run.stdin ∧
    ∀ sid, run.session = some sid → ∃ s, b.sessions[sid]? = some s ∧ s.owner = run.owner

/-- A section in which an integration submits a command under a new identifier. -/
def Submits (e : Event) (id : Bytes) (c : Submission) : Prop :=
  ∃ revision r slot, e = .request c.owner revision (.runCommand r) id slot ∧
    r.command = c.command ∧ r.stdin = c.stdin ∧ r.env = c.env ∧ r.cwd = c.cwd

/-- A section in which a grant for an integration is published. -/
def Publishes (b : Broker) (e : Event) (o : Bytes) : Prop :=
  ∃ p epoch b', e = .publishGrant p epoch ∧ p.owner = o ∧ b.publishGrant p epoch = .ok b'

structure Frame (b : Broker) (e : Event) (b' : Broker) : Prop where
  runs : ∀ (id : Bytes) run', b'.runs[id]? = some run' →
    (∃ run, b.runs[id]? = some run) ∨ b.submitted[id]? = none
  submitted : ∀ (id : Bytes) c, b.submitted[id]? = some c →
    b'.submitted[id]? = some c
  submits : ∀ (id : Bytes) c, b'.submitted[id]? = some c →
    b.submitted[id]? = some c ∨ Submits e id c
  threads : ∀ (id : Bytes) w, b.workers[id]? = some w →
    ∃ w', b'.workers[id]? = some w' ∧ w.Continues w'
  starts : ∀ (id : Bytes) w', b'.workers[id]? = some w' →
    (∃ w, b.workers[id]? = some w ∧ w.Continues w') ∨
      ∃ mode slot, e = .startRun id true mode slot ∧ b.Authorises mode (call id w')
  grants : ∀ (o : Bytes) g', b'.grants[o]? = some g' → (∃ g, b.grants[o]? = some g) ∨
    b.Publishes e o ∨ ∃ s ∈ b.saved, s.integrationId = o
  saved : ∀ s ∈ b'.saved, s ∈ b.saved ∨ b.Publishes e s.integrationId
  epoch : b.revocationEpoch ≤ b'.revocationEpoch
  suspended : b.suspended = true → b'.suspended = true ∨ e = .resumeIfCurrent b.revocationEpoch

variable {b b' : Broker} {e : Event}

/-- A section that neither submits nor starts a command. -/
theorem Frame.of_runs (runs : ∀ (id : Bytes) run', b'.runs[id]? = some run' →
      ∃ run, b.runs[id]? = some run)
    (submitted : b'.submitted = b.submitted) (workers : b'.workers = b.workers)
    (grants : ∀ (o : Bytes) g', b'.grants[o]? = some g' → (∃ g, b.grants[o]? = some g) ∨
      b.Publishes e o ∨ ∃ s ∈ b.saved, s.integrationId = o)
    (saved : ∀ s ∈ b'.saved, s ∈ b.saved ∨ b.Publishes e s.integrationId)
    (epoch : b.revocationEpoch ≤ b'.revocationEpoch)
    (suspended : b.suspended = true → b'.suspended = true ∨ e = .resumeIfCurrent b.revocationEpoch) :
    b.Frame e b' where
  runs id run' found := .inl (runs id run' found)
  submitted id c found := by rwa [submitted]
  submits id c found := .inl (submitted ▸ found)
  threads id w found := ⟨w, by rwa [workers], .refl w⟩
  starts id w' found := .inl ⟨w', workers ▸ found, .refl w'⟩
  grants := grants
  saved := saved
  epoch := epoch
  suspended := suspended

theorem Frame.of_rests (rests : b.Rests b') : b.Frame e b' := by
  refine .of_runs (fun id run' found => ?_) rests.submitted rests.workers
    (fun o g found => .inl ⟨g, rests.grants ▸ found⟩) (fun s mem => .inl (rests.saved ▸ mem))
    rests.epoch.ge (fun isSuspended => .inl (rests.steady ▸ isSuspended))
  obtain ⟨run, before, _⟩ := rests.was id run' found
  exact ⟨run, before⟩

theorem Frame.refl (b : Broker) (e : Event) : b.Frame e b := .of_rests (.refl b)

variable {o : Bytes} {revision : Revision} {slot : Bool}

theorem exists_grant_of_filter
    (found : (b.grants.filter fun o _ => !matchesOwner owner o)[o]? = some g) :
    ∃ g, b.grants[o]? = some g := by
  rw [getElem?_filter', filter_eq_some_iff] at found
  exact ⟨g, found.1⟩

theorem Frame.revoke (b : Broker) (e : Event) (owner : Option Bytes) : b.Frame e (b.revoke owner) :=
  .of_runs (fun _ run' found => ⟨run', (getElem?_filter_owner.mp found).1⟩) rfl rfl
    (fun _ _ found => .inl (exists_grant_of_filter found)) (fun _ => .inl) (Nat.le_succ _) .inl

theorem Frame.forgetAccess (b : Broker) (owner : Option Bytes) :
    b.Frame (.forgetAccess owner) (b.forgetAccess owner) := by
  have revoked := Frame.revoke b (.forgetAccess owner) owner
  unfold Broker.forgetAccess
  dsimp only
  split
  · exact { revoked with saved := fun s mem => .inl (List.mem_filter.mp mem).1 }
  · exact revoked

theorem Frame.publishGrant {epoch : Bytes} (published : b.publishGrant p epoch = .ok b') :
    b.Frame (.publishGrant p epoch) b' := by
  have returned := published
  simp only [Broker.publishGrant, saveGrant, bind_eq_ok, require_eq_ok, exists_const] at published
  obtain ⟨_, _, _, _, ⟨_, _, _, done⟩, done'⟩ := published
  cases done
  cases done'
  refine .of_runs (fun _ run' found => ⟨run', (getElem?_filter_owner.mp found).1⟩) rfl rfl
    (fun o g found => ?_) (fun s mem => ?_) (Nat.le_refl _) .inl
  · obtain ⟨same, -⟩ | ⟨-, found⟩ := of_insert found
    · exact .inr (.inl ⟨p, epoch, _, rfl, same, returned⟩)
    · exact .inl (exists_grant_of_filter found)
  · rcases List.mem_append.mp mem with kept | new
    · exact .inl (List.mem_filter.mp kept).1
    · obtain rfl := List.mem_singleton.mp new
      exact .inr ⟨p, epoch, _, rfl, rfl, returned⟩

theorem getElem?_foldl_addGrant {entries : List (Bytes × Grant)} {grants : Table Bytes Grant}
    (found : (entries.foldl addGrant grants)[o]? = some g') :
    (∃ g, grants[o]? = some g) ∨ ∃ entry ∈ entries, entry.1 = o := by
  induction entries generalizing grants with
  | nil => exact .inl ⟨g', found⟩
  | cons entry entries ih =>
    rcases ih found with ⟨g, before⟩ | ⟨other, mem, named⟩
    · unfold addGrant at before
      split at before
      · exact .inl ⟨g, before⟩
      · obtain ⟨same, -⟩ | ⟨-, before⟩ := of_insert before
        · exact .inr ⟨entry, List.mem_cons_self, same⟩
        · exact .inl ⟨g, before⟩
    · exact .inr ⟨other, List.mem_cons_of_mem _ mem, named⟩

theorem Frame.restoreAccess (b : Broker) (revision : Revision) (draws : List Draw) :
    b.Frame (.restoreAccess revision draws) (b.restoreAccess revision draws) := by
  unfold Broker.restoreAccess
  split
  · exact .refl b _
  · split
    · exact .refl b _
    · split
      · exact .refl b _
      · refine .of_runs (fun _ run' found => ⟨run', found⟩) rfl rfl (fun o g found => ?_)
          (fun _ => .inl) (Nat.le_refl _) .inl
        refine (getElem?_foldl_addGrant found).imp_right fun ⟨entry, mem, named⟩ => .inr ?_
        obtain ⟨⟨s, _, _⟩, zipped, gives⟩ := List.mem_filterMap.mp (List.mem_of_mem_take mem)
        obtain ⟨_, _, rfl⟩ := map_eq_some_iff.mp gives
        exact ⟨s, (List.of_mem_zip zipped).1, named⟩

theorem Frame.request {id : Bytes} (fresh : b.submitted[id]? = none)
    (served : b.request owner revision r id slot = .ok (answer, b')) :
    b.Frame (.request owner revision r id slot) b' := by
  obtain ⟨_, _, _, _, ran⟩ := request_eq_ok served
  cases (tool_eq_ok ran).1 with
  | nothing => exact .refl b _
  | opens | closes | cancels =>
    refine .of_runs (fun k run' found => ?_) rfl rfl (fun _ g found => .inl ⟨g, found⟩)
      (fun _ => .inl) (Nat.le_refl _) .inl
    first
      | exact ⟨run', found⟩
      | obtain ⟨run, before, _⟩ := map_eq_some_iff.mp
          ((b.runs.getElem?_updateWhere ..) ▸ found)
        exact ⟨run, before⟩
  | submits placed admitted =>
    rename_i command session target timeoutMs records
    refine ⟨fun k run' found => ?_, fun k c found => ?_, fun k c found => ?_,
      fun k w found => ⟨w, found, .refl w⟩, fun k w found => .inl ⟨w, found, .refl w⟩,
      fun _ g found => .inl ⟨g, found⟩, fun _ => .inl, Nat.le_refl _, .inl⟩
    · obtain ⟨rfl, -⟩ | ⟨-, found⟩ := of_insert found
      · exact .inr fresh
      · obtain ⟨run, before, _⟩ := (Records.admitRun_evicts admitted).evolves.was k run' found
        exact .inl ⟨run, before⟩
    · exact insert_of_free fresh found
    · obtain ⟨rfl, rfl⟩ | ⟨-, found⟩ := of_insert found
      · exact .inr ⟨revision, command, slot, rfl, rfl, rfl, rfl, rfl⟩
      · exact .inl found

theorem Frame.startRun (sound : b.Sound) {id : Bytes}
    (ran : b.startRun id allowed mode slot = .ok b') :
    b.Frame (.startRun id allowed mode slot) b' := by
  simp only [Broker.startRun, bind_eq_ok, okOr_eq_ok, require_eq_ok, exists_const] at ran
  obtain ⟨run, found, waits, ran⟩ := ran
  simp only [Broker.decidable, Bool.and_eq_true, beq_iff_eq, Bool.not_eq_true', decide_eq_true_eq] at waits
  split at ran
  case isFalse =>
    cases ran
    refine .of_rests ⟨?_, rfl, rfl, rfl⟩
    exact .modifyRun b (finish_follows (by decide)) fun _ works => works
  case isTrue isAllowed =>
    obtain ⟨grant, _, connection, holds, epoch, unexpired, approval, among, connects, rfl⟩ :=
      launch_eq_ok ran
    have modified : b.Evolves (b.modifyRun id (started b.now connection)) :=
      .modifyRun b started_follows fun _ _ => rfl
    have unstarted : b.workers[id]? = none := by
      refine sound.unstarted id run found ?_
      cases mode <;> simp [waiting, waits.1.1, ApprovalMode.waits]
    have others {k : Bytes} {w w' : Worker} (before : b.workers[k]? = some w') :
        (b.workers.insert id w)[k]? = some w' := insert_of_free unstarted before
    refine ⟨fun k run' foundRun => ?_, fun _ _ before => before, fun _ _ before => .inl before,
      fun k w before => ⟨w, others before, .refl w⟩, fun k w' foundWorker => ?_,
      fun _ g before => .inl ⟨g, before⟩, fun _ => .inl, Nat.le_refl _, .inl⟩
    · obtain ⟨r, before, _⟩ := modified.was k run' foundRun
      exact .inl ⟨r, before⟩
    · obtain ⟨rfl, rfl⟩ | ⟨-, foundWorker⟩ := of_insert foundWorker
      case inr => exact .inl ⟨w', foundWorker, .refl w'⟩
      case inl =>
        have inTime (t : Nat) (expires : grant.expires = some t) : startDeadline b.now grant run ≤ t := by
          simp [startDeadline, expires]
        refine .inr ⟨mode, slot, by rw [isAllowed], run, grant, found, ⟨waits.1.1, waits.1.2, waits.2⟩,
          holds, epoch, unexpired, approval, among, inTime, rfl, rfl, fun sid inSession => ?_⟩
        cases connection with
        | some t =>
          obtain ⟨_, _, s, inSession', foundSession, owner⟩ :=
            sound.startConnection found holds among connects
          cases inSession.symm.trans inSession'
          exact ⟨s, foundSession, owner⟩
        | none =>
          simp only [inSession, Broker.startConnection, bind_eq_ok, map_eq_ok] at connects
          obtain ⟨_, _, _, _, isSome⟩ := connects
          cases isSome

theorem workerStep_workers (id : Bytes) (w : Worker) (step : WorkerStep)
    (follows : Event.WorkerStep.follows step w.stage = true) :
    ∃ w', (b.workerStep id w step).workers = b.workers.insert id w' ∧ w.Continues w' ∧
      ∀ failure, step = .executes failure → w'.stage.spent = true := by
  have unspent (s : Stage) (next : step ≠ .ends) (follows : Event.WorkerStep.follows step s = true) :
      s.spent = false := by
    cases step <;> cases s <;> first | exact absurd rfl next | rfl | cases follows
  have moves {w' : Worker} (next : step ≠ .ends) (target : w'.target = w.target)
      (deadline : w'.deadline = w.deadline) (command : w'.command = w.command)
      (stdin : w'.stdin = w.stdin) : w.Continues w' :=
    ⟨target, deadline, command, stdin, fun spent => by
      rw [unspent w.stage next follows] at spent
      cases spent⟩
  cases step with
  | records failure =>
    cases failure with
    | none => exact ⟨_, rfl, moves (by simp) rfl rfl rfl rfl, by simp⟩
    | some error => exact ⟨_, rfl, moves (by simp) rfl rfl rfl rfl, by simp⟩
  | connects failure =>
    simp only [Broker.workerStep, workerConnects]
    split
    · exact ⟨_, rfl, moves (by simp) rfl rfl rfl rfl, by simp⟩
    · exact ⟨_, rfl, moves (by simp) rfl rfl rfl rfl, by simp⟩
    · exact ⟨_, rfl, moves (by simp) rfl rfl rfl rfl, by simp⟩
  | checks =>
    simp only [Broker.workerStep, workerChecks]
    split
    · exact ⟨_, rfl, moves (by simp) rfl rfl rfl rfl, by simp⟩
    · exact ⟨_, rfl, moves (by simp) rfl rfl rfl rfl, by simp⟩
  | executes failure =>
    refine ⟨_, rfl, moves (by simp) rfl rfl rfl rfl, fun _ _ => ?_⟩
    cases failure <;> rfl
  | ends => exact ⟨_, rfl, ⟨rfl, rfl, rfl, rfl, fun _ => rfl⟩, by simp⟩

theorem Frame.workerStep {id : Bytes} {step : WorkerStep} (found : b.workers[id]? = some w)
    (follows : Event.WorkerStep.follows step w.stage = true) :
    b.Frame (.worker id step) (b.workerStep id w step) := by
  obtain ⟨w', inserted, continues, _⟩ := workerStep_workers (b := b) id w step follows
  have same : (b.workerStep id w step).submitted = b.submitted ∧
      (b.workerStep id w step).grants = b.grants ∧ (b.workerStep id w step).saved = b.saved ∧
      (b.workerStep id w step).revocationEpoch = b.revocationEpoch ∧
      (b.workerStep id w step).suspended = b.suspended ∧
      ∀ (k : Bytes) run', (b.workerStep id w step).runs[k]? = some run' →
        ∃ run, b.runs[k]? = some run := by
    have modified (f : Run → Run) (k : Bytes) (run' : Run)
        (foundRun : (b.modifyRun id f).runs[k]? = some run') : ∃ run, b.runs[k]? = some run := by
      obtain ⟨run, before, _⟩ := map_eq_some_iff.mp
        ((b.runs.getElem?_updateWhere ..) ▸ foundRun)
      exact ⟨run, before⟩
    cases step with
    | records failure =>
      cases failure with
      | none => exact ⟨rfl, rfl, rfl, rfl, rfl, fun _ run' before => ⟨run', before⟩⟩
      | some error => exact ⟨rfl, rfl, rfl, rfl, rfl, modified _⟩
    | connects failure =>
      simp only [Broker.workerStep, workerConnects]
      split <;> exact ⟨rfl, rfl, rfl, rfl, rfl, fun _ run' before => ⟨run', before⟩⟩
    | checks =>
      simp only [Broker.workerStep, workerChecks]
      split <;> exact ⟨rfl, rfl, rfl, rfl, rfl, fun _ run' before => ⟨run', before⟩⟩
    | _ => exact ⟨rfl, rfl, rfl, rfl, rfl, modified _⟩
  obtain ⟨submitted, grants, saved, epoch, suspended, runs⟩ := same
  refine ⟨fun k run' foundRun => .inl (runs k run' foundRun), fun k c before => by rwa [submitted],
    fun k c after => .inl (submitted ▸ after), fun k w₀ before => ?_, fun k w₀ after => ?_,
    fun o g after => .inl ⟨g, grants ▸ after⟩, fun s mem => .inl (saved ▸ mem), epoch.ge,
    fun isSuspended => .inl (suspended ▸ isSuspended)⟩
  · rw [inserted, getElem?_insert]
    split
    case isTrue same =>
      subst same
      cases found.symm.trans before
      exact ⟨w', rfl, continues⟩
    case isFalse => exact ⟨w₀, before, .refl w₀⟩
  · rw [inserted] at after
    obtain ⟨rfl, rfl⟩ | ⟨-, after⟩ := of_insert after
    · exact .inl ⟨w, found, continues⟩
    · exact .inl ⟨w₀, after, .refl w₀⟩

/-- Every section has a frame. -/
theorem step_frame (sound : b.Sound) (enabled : e.Enabled b) : b.Frame e (b.step e) := by
  obtain ⟨_, ready⟩ := enabled
  cases e with
  | publishGrant p epoch => exact orUnchanged_keeps (.refl b _) fun b' => Frame.publishGrant
  | revoke owner => exact .revoke b _ owner
  | forgetAccess owner => exact .forgetAccess b owner
  | suspend => exact { Frame.revoke b .suspend none with suspended := fun _ => .inl rfl }
  | resumeIfCurrent epoch =>
    simp only [Broker.step, Broker.resumeIfCurrent]
    split
    case isTrue current =>
      refine .of_runs (fun _ run' found => ⟨run', found⟩) rfl rfl (fun _ g found => .inl ⟨g, found⟩)
        (fun _ => .inl) (Nat.le_refl _) fun _ => .inr (by rw [current])
    case isFalse => exact .refl b _
  | revokeExpired owner epoch =>
    simp only [Broker.step, Broker.revokeExpired]
    split
    · exact .revoke b _ _
    · exact .refl b _
  | restoreAccess revision draws => exact .restoreAccess b revision draws
  | request owner revision r id slot =>
    refine orUnchanged_keeps (.refl b _) fun b' served => ?_
    obtain ⟨⟨_, _⟩, answered, rfl⟩ := map_eq_ok.mp served
    exact .request ready.1 answered
  | startRun id allowed mode slot => exact orUnchanged_keeps (.refl b _) fun b' => Frame.startRun sound
  | worker id step =>
    obtain ⟨w, found, follows⟩ := ready
    simpa [Broker.step, found] using Frame.workerStep found follows
  | _ => exact .of_rests (step_rests rfl)

end Broker

end UniSsh.Automation
