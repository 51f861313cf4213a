import Mathlib.Data.List.TakeWhile
import UniSsh.Automation.Barrier

/-!
# Commands run only as authorised

Every thread goes back to a start that allowed its call, every run to one submission. A request
touches others' runs only by the ceiling on records and by the sweep it begins with.
-/

namespace UniSsh.Automation.Broker

open List Option

variable {past : History} {b b' : Broker} {e : Event}

/-- What the tables keep of what happened. -/
structure Recorded (past : History) (b : Broker) : Prop where
  started : ∀ (id : Bytes) w, b.workers[id]? = some w →
    ∃ before mode slot, (before, Event.startRun id true mode slot) ∈ past ∧
      before.Authorises mode (call id w)
  called : ∀ entry ∈ past, ∀ x, entry.1.execOf entry.2 = some x →
    ∃ w, b.workers[x.run]? = some w ∧ w.stage.spent = true
  submitted : ∀ (id : Bytes) c, b.submitted[id]? = some c →
    ∃ entry ∈ past, Submits entry.2 id c
  lasting : ∀ entry ∈ past, entry.1.Sound ∧ ∀ (id : Bytes) c,
    entry.1.submitted[id]? = some c → b.submitted[id]? = some c

theorem Recorded.step (recorded : Recorded past b) (sound : b.Sound) (enabled : e.Enabled b) :
    Recorded ((b, e) :: past) (b.step e) := by
  have frame := step_frame sound enabled
  constructor
  · intro id w' found
    rcases frame.starts id w' found with ⟨w, before, continues⟩ | ⟨mode, slot, rfl, allowed⟩
    · obtain ⟨start, mode, slot, mem, allowed⟩ := recorded.started id w before
      have same : call id w' = call id w := by
        simp only [call, continues.target, continues.deadline, continues.command, continues.stdin]
      exact ⟨start, mode, slot, mem_cons_of_mem _ mem, same ▸ allowed⟩
    · exact ⟨b, mode, slot, mem_cons_self, allowed⟩
  · intro entry mem x calls
    rcases mem_cons.mp mem with rfl | older
    · -- a thread that made its call is past it
      obtain ⟨w, failure, rfl, found, stage, _⟩ := execOf_eq_some sound enabled calls
      obtain ⟨w', inserted, _, spends⟩ :=
        workerStep_workers (b := b) x.run w (.executes failure) (by rw [stage]; rfl)
      refine ⟨w', ?_, spends failure rfl⟩
      simp only [Broker.step, found, elim_some, inserted]
      exact Std.ExtTreeMap.getElem?_insert_self
    · obtain ⟨w, found, spent⟩ := recorded.called entry older x calls
      obtain ⟨w', after, continues⟩ := frame.threads x.run w found
      exact ⟨w', after, continues.spent spent⟩
  · intro id c known
    rcases frame.submits id c known with before | now
    · obtain ⟨entry, mem, submits⟩ := recorded.submitted id c before
      exact ⟨entry, mem_cons_of_mem _ mem, submits⟩
    · exact ⟨(b, e), mem_cons_self, now⟩
  · intro entry mem
    rcases mem_cons.mp mem with rfl | older
    · exact ⟨sound, frame.submitted⟩
    · obtain ⟨wasSound, lasts⟩ := recorded.lasting entry older
      exact ⟨wasSound, fun id c known => frame.submitted id c (lasts id c known)⟩

theorem Reaches.recorded (reached : Reaches past b) : Recorded past b := by
  induction reached with
  | new => constructor <;> simp [Broker.new]
  | step before enabled ih => exact ih.step before.sound enabled

theorem mem_pendingApprovals (sound : b.Sound) (listed : p ∈ b.pendingApprovals) :
    b.submitted[p.runId]? = some ⟨p.integrationId, p.command, p.stdin, p.env, p.cwd⟩ := by
  obtain ⟨⟨id, run⟩, inTable, gives⟩ := mem_filterMap.mp listed
  have found := mem_toList_iff_getElem?_eq_some.mp inTable
  simp only [pendingApproval] at gives
  split at gives
  · simp only [bind_eq_bind, bind_eq_some_iff] at gives
    obtain ⟨_, _, _, _, done⟩ := gives
    cases done
    exact sound.submitted id run found
  · cases gives

/-! ## Other integrations -/

theorem getElem?_foldl_removeRun {id : Bytes} {ids : List Bytes} {records : Records}
    (kept : id ∉ ids) :
    (ids.foldl Records.removeRun records).runs[id]? = records.runs[id]? := by
  induction ids generalizing records with
  | nil => rfl
  | cons dropped ids ih =>
    obtain ⟨differs, kept⟩ := not_or.mp (mt mem_cons.mpr kept)
    refine (ih kept).trans ?_
    unfold Records.removeRun
    split
    · exact Table.getElem?_erase_of_ne _ differs
    · rfl

/-- A record of another owner is dropped only for the ceiling on all records. -/
theorem admitRun_drops_other {id : Bytes} {run : Run} {records records' : Records}
    (admitted : records.admitRun owner perGrant total = some records')
    (found : records.runs[id]? = some run) (other : run.owner ≠ owner)
    (gone : records'.runs[id]? = none) : total ≤ records.runs.size := by
  by_contra below
  have room : records.runs.size + 1 - total = 0 := by omega
  simp only [Records.admitRun, room, Nat.max_zero] at admitted
  split at admitted
  · cases admitted
  next enough =>
  cases admitted
  simp only [Bool.or_eq_true, decide_eq_true_eq, not_or, Nat.not_lt] at enough
  rw [getElem?_foldl_removeRun, found] at gone
  · cases gone
  · intro dropped
    -- what is dropped stands among the records of the owner that come first
    have first := (prefix_of_prefix_length_le ( take_prefix _ _) ( takeWhile_prefix _)
      ((length_take_le _ _).trans enough.1)).subset dropped
    have owned := mem_takeWhile_imp first
    rw [found, Option.any_some, beq_iff_eq] at owned
    exact other owned

/-- A request leaves others' runs, cancel flags and sessions, but for finished runs dropped at the
ceiling. -/
structure LeavesOthers (owner : Bytes) (r : ToolRequest) (b b' : Broker) : Prop where
  runs : ∀ (id : Bytes) run, b.runs[id]? = some run → run.owner ≠ owner →
    b'.runs[id]? = some run ∨
      (b'.runs[id]? = none ∧ run.finishedAt.isSome = true ∧ run.worker = false ∧
        (∃ command, r = .runCommand command) ∧ b.limits.retainedCommands ≤ b.runs.size)
  flags : ∀ (id : Bytes) run, b.runs[id]? = some run → run.owner ≠ owner →
    id ∈ b'.stopped → id ∈ b.stopped
  sessions : ∀ (id : Bytes) s, b.sessions[id]? = some s → s.owner ≠ owner →
    b'.sessions[id]? = some s

theorem LeavesOthers.refl (owner : Bytes) (r : ToolRequest) (b : Broker) :
    LeavesOthers owner r b b :=
  ⟨fun _ _ found _ => .inl found, fun _ _ _ _ stop => stop, fun _ _ found _ => found⟩

theorem not_mem_runsIn {owner session id : Bytes} (found : b.runs[id]? = some run)
    (other : run.owner ≠ owner) : id ∉ b.runsIn owner session := by
  intro listed
  obtain ⟨⟨_, _⟩, inTable, rfl⟩ := mem_map.mp listed
  obtain ⟨mem, owned⟩ := mem_filter.mp inTable
  cases found.symm.trans (mem_toList_iff_getElem?_eq_some.mp mem)
  simp only [Bool.and_eq_true, beq_iff_eq] at owned
  exact other owned.1

theorem LeavesOthers.toolEffect (sound : b.Sound) {id : Bytes}
    (unsubmitted : b.submitted[id]? = none) (undrawn : b.connectors[id]? = none)
    (effect : ToolEffect b owner grant id r b') : LeavesOthers owner r b b' := by
  cases effect with
  | nothing => exact .refl owner r b
  | opens among admitted =>
    refine ⟨fun _ _ found _ => .inl found, fun _ _ _ _ stop => stop, fun k s found other => ?_⟩
    obtain ⟨_, _, _, _, _, connector, _⟩ := sound.opened k s found
    refine (Table.getElem?_insert ..).trans ((if_neg ?_).trans
      ((admitSession_eq_some admitted).2 k s found other))
    rintro rfl
    exact nomatch undrawn.symm.trans connector
  | closes foundSession owned =>
    refine ⟨fun k run found other => .inl ?_, fun k run found other stop => ?_,
      fun k s' found other => ?_⟩
    · refine ((b.runs.getElem?_updateWhere _ _ k).trans (congrArg _ found)).trans ?_
      simp [not_mem_runsIn found other]
    · exact (mem_append.mp stop).resolve_left (not_mem_runsIn found other)
    · refine (Table.getElem?_insert ..).trans ((if_neg ?_).trans found)
      rintro rfl
      cases foundSession.symm.trans found
      exact other owned
  | submits placed admitted =>
    rename_i command session target timeoutMs records
    refine ⟨fun k run found other => ?_, fun _ _ _ _ stop => stop, fun _ _ found _ => found⟩
    have differs : id ≠ k := by
      rintro rfl
      exact nomatch unsubmitted.symm.trans (sound.submitted id run found)
    have after (new : Run) : (records.runs.insert id new)[k]? = records.runs[k]? :=
      (Table.getElem?_insert ..).trans (if_neg differs)
    rcases Records.admitRun_evicts admitted k with same | ⟨gone, run', found', idle, finished⟩
    · exact .inl ((after _).trans (same.trans found))
    · cases found.symm.trans found'
      exact .inr ⟨(after _).trans gone, finished, idle, ⟨command, rfl⟩,
        admitRun_drops_other admitted found other gone⟩
  | cancels foundRun owned =>
    rename_i k run
    have differs {k' : Bytes} {run' : Run} (found : b.runs[k']? = some run')
        (other : run'.owner ≠ owner) : k' ≠ k := by
      rintro rfl
      cases foundRun.symm.trans found
      exact other owned
    refine ⟨fun k' run' found other => .inl ?_, fun k' run' found other stop => ?_,
      fun _ _ found _ => found⟩
    · refine ((b.runs.getElem?_updateWhere _ _ k').trans (congrArg _ found)).trans ?_
      simp [differs found other]
    · exact (mem_cons.mp stop).resolve_left (differs found other)

/-- The sweep finds due: grants expired or of another revision, old approvals, idle or lost
sessions. -/
structure SweepsOnlyDue (b : Broker) : Prop where
  revokes : ∀ owner epoch : Bytes, b.revokeExpired owner epoch = b ∨
    b.expired owner epoch = true ∧ b.revokeExpired owner epoch = b.revoke (some owner)
  restores : ∀ revision draws,
    (b.restoreAccess revision draws).records = b.records ∧
    (b.restoreAccess revision draws).stopped = b.stopped ∧
    (b.restoreAccess revision draws).sessions = b.sessions
  runs : ∀ now invalid (id : Bytes) run, b.runs[id]? = some run →
    (b.sweepState now invalid).runs[id]? = some run ∨
      run.state = .awaitingApproval ∧ run.approvalUntil ≤ now ∧
      (b.sweepState now invalid).runs[id]? = some (run.finish b.now .denied (some .approvalExpired))
  flags : ∀ now invalid, (b.sweepState now invalid).stopped = b.stopped
  sessions : ∀ now invalid (id : Bytes) s, b.sessions[id]? = some s →
    (b.sweepState now invalid).sessions[id]? = some s ∨
      ((s.state = .ready ∧ s.idle + 300000 ≤ now) ∨ id ∈ invalid) ∧
      ∃ error, (b.sweepState now invalid).sessions[id]? = some (s.close error)

theorem sweepsOnlyDue (b : Broker) : b.SweepsOnlyDue where
  revokes owner epoch := by
    unfold revokeExpired
    split
    case isTrue isExpired => exact .inr ⟨isExpired, rfl⟩
    case isFalse => exact .inl rfl
  restores revision draws := by
    unfold Broker.restoreAccess
    split
    · exact ⟨rfl, rfl, rfl⟩
    · split
      · exact ⟨rfl, rfl, rfl⟩
      · split <;> exact ⟨rfl, rfl, rfl⟩
  runs now invalid id run found := by
    have swept : (b.sweepState now invalid).runs[id]? = some (expireApproval now b.now run) :=
      ((b.runs.getElem?_updateWhere _ _ id).trans (congrArg _ found)).trans (by simp)
    rw [swept]
    unfold expireApproval
    split
    case isTrue due => exact .inr ⟨due.1, due.2, rfl⟩
    case isFalse => exact .inl rfl
  flags now invalid := rfl
  sessions now invalid id s found := by
    obtain ⟨swept, isSwept⟩ : ∃ swept : Broker, (b.sweepState now invalid).sessions[id]? =
        some (swept.sweepSession now invalid id s) :=
      ⟨_, (Std.ExtTreeMap.getElem?_map ..).trans (congrArg _ found)⟩
    rw [isSwept]
    rcases swept.sweepSession_due now invalid id s with same | ⟨due, error, closed⟩
    · exact .inl (congrArg some same)
    · exact .inr ⟨due, error, congrArg some closed⟩

/-- Commands run only as authorised: a call of `Connection::exec` is the only one of its run, a
start allowed it, and its text is what the owner submitted. A request leaves what others own, but
for finished records at the ceiling, and its sweep takes only what is due. -/
theorem commands_run_as_authorised (reached : Reaches past b) :
    (∀ e x, e.Enabled b → b.execOf e = some x →
      (∀ entry ∈ past, ∀ y, entry.1.execOf entry.2 = some y → y.run ≠ x.run) ∧
      ∃ c, b.submitted[x.run]? = some c ∧ (∃ entry ∈ past, Submits entry.2 x.run c) ∧
        (∃ before mode slot, (before, Event.startRun x.run true mode slot) ∈ past ∧
          (before.runs[x.run]?).map Run.toSubmission = some c ∧ before.Authorises mode x) ∧
        x.command = withEnv c.command c.cwd c.env ∧ x.stdin = c.stdin ∧
        ∀ entry ∈ past, ∀ p ∈ entry.1.pendingApprovals, p.runId = x.run →
          c = ⟨p.integrationId, p.command, p.stdin, p.env, p.cwd⟩) ∧
    (∀ owner revision r id slot answer b', (Event.request owner revision r id slot).Enabled b →
      b.request owner revision r id slot = .ok (answer, b') →
      Answer.OwnedBy owner answer ∧ LeavesOthers owner r b b') ∧
    b.SweepsOnlyDue := by
  have sound := reached.sound
  have recorded := reached.recorded
  refine ⟨fun e x enabled calls => ⟨fun entry mem y called same => ?_, ?_⟩, ?_, sweepsOnlyDue b⟩
  · obtain ⟨w, _, _, found, stage, _⟩ := execOf_eq_some sound enabled calls
    obtain ⟨_, found', spent⟩ := recorded.called entry mem y called
    cases found.symm.trans (same ▸ found')
    rw [stage] at spent
    cases spent
  · obtain ⟨w, _, _, found, _, isCall⟩ := execOf_eq_some sound enabled calls
    obtain ⟨c, known, command, stdin⟩ := sound.known x.run w found
    obtain ⟨before, mode, slot, mem, allowed⟩ := recorded.started x.run w found
    refine ⟨c, known, recorded.submitted x.run c known, ⟨before, mode, slot, mem, ?_, isCall ▸ allowed⟩,
      ?_, ?_, fun entry inPast p listed named => ?_⟩
    · obtain ⟨run, _, inTable, _⟩ := allowed
      obtain ⟨wasSound, lasts⟩ := recorded.lasting _ mem
      have same := lasts x.run _ (wasSound.submitted x.run run inTable)
      exact (congrArg _ inTable).trans (same.symm.trans known)
    · rw [isCall]
      exact command
    · rw [isCall]
      exact stdin
    · obtain ⟨wasSound, lasts⟩ := recorded.lasting entry inPast
      have same := lasts p.runId _ (mem_pendingApprovals wasSound listed)
      rw [named, known] at same
      exact some.inj same
  · intro _ _ r _ _ _ _ enabled served
    obtain ⟨_, _, _, _, ran⟩ := request_eq_ok served
    obtain ⟨effect, owned⟩ := tool_eq_ok ran
    exact ⟨owned, .toolEffect sound enabled.2.1 enabled.2.2 effect⟩

namespace Sample

/-- The second integration's command waits for a decision until its time is over. -/
def awaits : List Event := [restores, submits [2] [12], .clock 120000 120]

theorem awaits_enabled : start.AllEnabled awaits :=
  ⟨⟨fun _ => by decide, trivial⟩, ⟨nofun, by decide, by decide⟩,
    ⟨nofun, by change _ ≤ _; decide⟩, trivial⟩

def overdue : Broker := awaits.foldl Broker.step start

/-- The first integration's command up to its last check. -/
def runsTrusted : List Event := connects ++ [.worker [31] .checks]

theorem runsTrusted_enabled : start.AllEnabled runsTrusted :=
  ⟨⟨fun _ => rfl, trivial⟩, ⟨nofun, rfl, rfl⟩,
    ⟨nofun, trivial⟩, enabled_worker rfl, enabled_worker rfl,
    enabled_worker rfl, trivial⟩

def admitted : Broker := runsTrusted.foldl Broker.step start

end Sample

open Sample

/-- The second integration's waiting command is denied when the first one lists its targets. -/
theorem request_ends_anothers_run : ∃ past run, Reaches past overdue ∧
    overdue.runs[([31] : Bytes)]? = some run ∧ run.owner = [2] ∧
    ((overdue.requestSections [] [] [1] .listTargets [32] false).foldl Broker.step
      overdue).runs[([31] : Bytes)]? ≠ some run := by
  refine ⟨_, (overdue.runs[([31] : Bytes)]?).get rfl,
    (Reaches.new _ _ _ _).events awaits_enabled, ?_, ?_, ?_⟩
  · exact (some_get _).symm
  · decide
  · decide

/-- A trusted integration's command is sent, as the start of its run allowed. -/
theorem commands_run_as_authorised_trusted :
    ∃ x, admitted.execOf (.worker [31] (.executes none)) = some x ∧
      ∃ before mode slot, (before, Event.startRun x.run true mode slot) ∈
        start.historyOf runsTrusted [] ∧ before.Authorises mode x := by
  have reached : Reaches (start.historyOf runsTrusted []) admitted :=
    (Reaches.new _ _ _ _).events runsTrusted_enabled
  have calls := (some_get (x := admitted.execOf (.worker [31] (.executes none)))
    rfl).symm
  obtain ⟨_, c, _, _, ⟨before, mode, slot, mem, _, allowed⟩, _⟩ :=
    (commands_run_as_authorised reached).1 _ _ (enabled_worker rfl) calls
  exact ⟨_, calls, before, mode, slot, mem, allowed⟩

end UniSsh.Automation.Broker
