import UniSsh.Automation.Broker

/-!
# What holds across the broker's threads

`Records.Evolves` and `Broker.Evolves` say what most sections may do, the others have a lemma
each. `Broker.Sound` ties the tables together in every state reached.
-/

namespace UniSsh.Automation

open Table Option

/-! ## Runs -/

/-- The same command later on: a run that waits has waited all the time. -/
structure Run.Follows (run run' : Run) : Prop where
  submission : run'.toSubmission = run.toSubmission
  epoch : run'.epoch = run.epoch
  target : run'.target = run.target
  session : run'.session = run.session
  waits : Broker.waiting run' = true → Broker.waiting run = true

theorem Run.Follows.refl (run : Run) : run.Follows run := ⟨rfl, rfl, rfl, rfl, id⟩

variable {run : Run}

theorem Run.Follows.trans {mid run' : Run} (first : run.Follows mid) (second : mid.Follows run') :
    run.Follows run' :=
  ⟨second.submission.trans first.submission, second.epoch.trans first.epoch,
    second.target.trans first.target, second.session.trans first.session,
    fun waits => first.waits (second.waits waits)⟩

namespace Records

/-- Every record was there, as the same command, and none with a worker is gone. -/
structure Evolves (r r' : Records) : Prop where
  was : ∀ (id : Bytes) run', r'.runs[id]? = some run' →
    ∃ run, r.runs[id]? = some run ∧ run.Follows run'
  kept : ∀ (id : Bytes) run, r.runs[id]? = some run → run.worker = true →
    ∃ run', r'.runs[id]? = some run' ∧ run'.worker = true

variable {r r' mid : Records}

theorem Evolves.of_runs (same : r'.runs = r.runs) : r.Evolves r' :=
  ⟨fun _ run' found => ⟨run', same ▸ found, .refl run'⟩,
    fun _ run found works => ⟨run, same ▸ found, works⟩⟩

theorem Evolves.refl (r : Records) : r.Evolves r := .of_runs rfl

theorem Evolves.trans (first : r.Evolves mid) (second : mid.Evolves r') : r.Evolves r' where
  was id run' found := by
    obtain ⟨between, foundMid, follows'⟩ := second.was id run' found
    obtain ⟨run, foundRun, follows⟩ := first.was id between foundMid
    exact ⟨run, foundRun, follows.trans follows'⟩
  kept id run found works := by
    obtain ⟨between, foundMid, worksMid⟩ := first.kept id run found works
    exact second.kept id between foundMid worksMid

variable {set : Run → Run}

/-- Rewriting records in place. -/
theorem Evolves.updateWhere (r : Records) {cond : Bytes → Run → Bool}
    (follows : ∀ run : Run, run.Follows (set run))
    (works : ∀ run : Run, run.worker = true → (set run).worker = true) :
    r.Evolves ⟨r.runs.updateWhere cond set, n⟩ where
  was id run' found := by
    obtain ⟨run, foundRun, rfl⟩ := map_eq_some_iff.mp ((r.runs.getElem?_updateWhere ..) ▸ found)
    refine ⟨run, foundRun, ?_⟩
    split
    · exact follows run
    · exact .refl run
  kept id run found running := by
    refine ⟨_, (r.runs.getElem?_updateWhere cond set id).trans (congrArg _ found), ?_⟩
    dsimp only
    split
    · exact works run running
    · exact running

theorem Evolves.modify (r : Records) {id : Bytes} (follows : ∀ run : Run, run.Follows (set run))
    (works : ∀ run : Run, run.worker = true → (set run).worker = true) :
    r.Evolves (r.modify id set) :=
  .updateWhere r follows works

/-! ## Eviction -/

/-- Some finished records without a worker were dropped, and nothing else was touched. -/
def Evicts (r r' : Records) : Prop :=
  ∀ id : Bytes, r'.runs[id]? = r.runs[id]? ∨ (r'.runs[id]? = none ∧
    ∃ run, r.runs[id]? = some run ∧ run.worker = false ∧ run.finishedAt.isSome = true)

theorem Evicts.refl (r : Records) : r.Evicts r := fun _ => .inl rfl

theorem Evicts.trans (first : r.Evicts mid) (second : mid.Evicts r') : r.Evicts r' := by
  intro id
  rcases second id with same | ⟨gone, run, found, idle⟩
  · rw [same]
    exact first id
  · rcases first id with same | ⟨absent, _⟩
    · exact .inr ⟨gone, run, same ▸ found, idle⟩
    · rw [absent] at found
      cases found

theorem Evicts.evolves (evicts : r.Evicts r') : r.Evolves r' where
  was id run' found := by
    rcases evicts id with same | ⟨gone, _⟩
    · exact ⟨run', same ▸ found, .refl run'⟩
    · rw [gone] at found
      cases found
  kept id run found works := by
    rcases evicts id with same | ⟨_, _, foundOther, idle, _⟩
    · exact ⟨run, same.trans found, works⟩
    · cases found.symm.trans foundOther
      rw [works] at idle
      cases idle

theorem mem_evictable {id : Bytes} (listed : id ∈ r.evictable owner withOutput) :
    ∃ run, r.runs[id]? = some run ∧ run.worker = false ∧ run.finishedAt.isSome = true := by
  obtain ⟨_, mem, rfl⟩ := List.mem_map.mp listed
  rw [List.mem_mergeSort] at mem
  obtain ⟨⟨k, run⟩, inTable, chosen⟩ := List.mem_filterMap.mp mem
  have found := mem_toList_iff_getElem?_eq_some.mp inTable
  dsimp only at chosen
  split at chosen
  case isFalse => cases chosen
  case isTrue idle =>
    obtain ⟨_, finished, rfl⟩ := map_eq_some_iff.mp chosen
    simp only [Bool.and_eq_true, Bool.not_eq_true'] at idle
    exact ⟨run, found, idle.1, by simp [finished]⟩

/-- Dropping a record that was evictable at the start continues an eviction. -/
theorem Evicts.removeRun (evicts : r.Evicts mid) {id : Bytes}
    (idle : ∃ run, r.runs[id]? = some run ∧ run.worker = false ∧ run.finishedAt.isSome = true) :
    r.Evicts (mid.removeRun id) := by
  intro k
  unfold Records.removeRun
  split
  case h_2 => exact evicts k
  case h_1 =>
    by_cases same : k = id
    · subst same
      exact .inr ⟨Std.ExtTreeMap.getElem?_erase_self, idle⟩
    · change (mid.runs.erase id)[k]? = _ ∨ (mid.runs.erase id)[k]? = none ∧ _
      rw [getElem?_erase_of_ne _ same]
      exact evicts k

variable {ids : List Bytes} {total : Nat}

section Removals

variable (evicts : r.Evicts mid) (idle : ∀ id ∈ ids, ∃ run, r.runs[id]? = some run ∧
  run.worker = false ∧ run.finishedAt.isSome = true)
include evicts idle

theorem evicts_foldl_removeRun : r.Evicts (ids.foldl Records.removeRun mid) := by
  induction ids generalizing mid with
  | nil => exact evicts
  | cons id ids ih =>
    exact ih (evicts.removeRun (idle id List.mem_cons_self))
      fun k mem => idle k (List.mem_cons_of_mem _ mem)

theorem trimOutput_evicts : r.Evicts (trimOutput total ids mid) := by
  induction ids generalizing mid with
  | nil => exact evicts
  | cons id ids ih =>
    unfold trimOutput
    split
    · exact evicts
    · exact ih (evicts.removeRun (idle id List.mem_cons_self))
        fun k mem => idle k (List.mem_cons_of_mem _ mem)

theorem makeRoom_evicts : r.Evicts (makeRoom needed total ids mid) := by
  induction ids generalizing mid with
  | nil => exact evicts
  | cons id ids ih =>
    have dropped := evicts.removeRun (idle id List.mem_cons_self)
    simp only [makeRoom]
    split
    · exact dropped
    · exact ih dropped fun k mem => idle k (List.mem_cons_of_mem _ mem)

end Removals

theorem admitRun_evicts (admitted : r.admitRun owner perGrant total = some r') : r.Evicts r' := by
  simp only [admitRun] at admitted
  split at admitted
  · cases admitted
  · cases admitted
    exact evicts_foldl_removeRun (.refl r) fun id mem => mem_evictable (List.mem_of_mem_take mem)

theorem trim_evicts (r : Records) (limits : BrokerLimits) : r.Evicts (r.trim limits) :=
  (evicts_foldl_removeRun (.refl r) fun _ mem => mem_evictable (List.mem_of_mem_take mem)).trans
    (trimOutput_evicts (.refl _) fun _ mem => mem_evictable mem)

theorem outputRoom_evicts (r : Records) (owner : Bytes) (needed total : Nat) :
    r.Evicts (r.outputRoom owner needed total) := by
  unfold outputRoom
  split
  · exact makeRoom_evicts (.refl r) fun _ mem => mem_evictable mem
  · exact .refl r

end Records

namespace Broker

/-! ## Sections that leave access alone -/

/-- What a section may do that neither gives nor takes access, submits nor starts a command. -/
structure Evolves (b b' : Broker) : Prop where
  was : ∀ (id : Bytes) run', b'.runs[id]? = some run' →
    ∃ run, b.runs[id]? = some run ∧ run.Follows run'
  kept : ∀ (id : Bytes) run, b.runs[id]? = some run → run.worker = true →
    (∃ w, b.workers[id]? = some w ∧ w.stage = .ended) ∨
      ∃ run', b'.runs[id]? = some run' ∧ run'.worker = true
  sessions : ∀ (id : Bytes) s', b'.sessions[id]? = some s' →
    ∃ s, b.sessions[id]? = some s ∧ s'.owner = s.owner ∧ s'.epoch = s.epoch ∧ s'.target = s.target ∧
      ∀ t, s'.connection = some t → s.connection = some t ∨ b.connectors[id]? = some t
  grants : b'.grants = b.grants
  submitted : b'.submitted = b.submitted
  workers : b'.workers = b.workers
  connectors : b'.connectors = b.connectors
  stopped : b.stopped ⊆ b'.stopped
  stops : ∀ id : Bytes, id ∈ b'.stopped →
    id ∈ b.stopped ∨ ∀ w, b.workers[id]? = some w → w.stage ≠ .admitted
  suspended : b'.suspended = true → b.suspended = true

variable {b : Broker} {sessions : Table Bytes Session}

/-- Sessions that are the same, or fewer. -/
theorem sessions_of_same
    (same : ∀ (id : Bytes) s, sessions[id]? = some s → b.sessions[id]? = some s)
    (id : Bytes) (s' : Session) (found : sessions[id]? = some s') :
    ∃ s, b.sessions[id]? = some s ∧ s'.owner = s.owner ∧ s'.epoch = s.epoch ∧ s'.target = s.target ∧
      ∀ t, s'.connection = some t → s.connection = some t ∨ b.connectors[id]? = some t :=
  ⟨s', same id s' found, rfl, rfl, rfl, fun _ => .inl⟩

theorem Evolves.of_records {records : Records} (evolves : b.records.Evolves records) :
    b.Evolves { b with records } :=
  ⟨evolves.was, fun id run found works => .inr (evolves.kept id run found works),
    sessions_of_same fun _ _ => id, rfl, rfl, rfl, rfl, List.Subset.refl _, fun _ => .inl, id⟩

theorem Evolves.refl (b : Broker) : b.Evolves b := .of_records (.refl _)

theorem Evolves.modifyRun (b : Broker) {id : Bytes} {set : Run → Run}
    (follows : ∀ run : Run, run.Follows (set run))
    (works : ∀ run : Run, run.worker = true → (set run).worker = true) : b.Evolves (b.modifyRun id set) :=
  .of_records (.modify _ follows works)

variable {now : Nat}

theorem finish_follows (ends : state ≠ .awaitingApproval ∧ state ≠ .queued) (run : Run) :
    run.Follows (run.finish now state error) := by
  refine ⟨rfl, rfl, rfl, rfl, fun waits => ?_⟩
  simp [waiting, Run.finish, ends] at waits

/-- The tables fit together. -/
structure Sound (b : Broker) : Prop where
  submitted : ∀ (id : Bytes) (run : Run), b.runs[id]? = some run →
    b.submitted[id]? = some run.toSubmission
  /-- Runs belong to the grant they were submitted under. -/
  granted : ∀ (id : Bytes) (run : Run), b.runs[id]? = some run →
    ∃ g, b.grants[run.owner]? = some g ∧ g.epoch = run.epoch
  /-- Sessions belong to the grant they were opened under and lead to a target of it. -/
  opened : ∀ (id : Bytes) (s : Session), b.sessions[id]? = some s →
    ∃ g t, b.grants[s.owner]? = some g ∧ g.epoch = s.epoch ∧ g.targets[s.target]? = some t ∧
      b.connectors[id]? = some t ∧ ∀ c, s.connection = some c → c = t
  /-- A run in a session has its owner and its target. -/
  placed : ∀ (id : Bytes) run (sid : Bytes), b.runs[id]? = some run →
    run.session = some sid → b.connectors[sid]? ≠ none ∧
      ∀ s, b.sessions[sid]? = some s → s.owner = run.owner ∧ s.target = run.target
  unstarted : ∀ (id : Bytes) run, b.runs[id]? = some run → waiting run = true →
    b.workers[id]? = none
  known : ∀ (id : Bytes) w, b.workers[id]? = some w → ∃ c, b.submitted[id]? = some c ∧
    w.command = withEnv c.command c.cwd c.env ∧ w.stdin = c.stdin
  /-- A thread is stopped, or its run is in the table. -/
  linked : ∀ (id : Bytes) w, b.workers[id]? = some w → w.stage ≠ .ended →
    id ∈ b.stopped ∨ ∃ run, b.runs[id]? = some run ∧ run.worker = true
  admitted : ∀ (id : Bytes) w, b.workers[id]? = some w → w.stage = .admitted →
    id ∉ b.stopped
  connected : ∀ (id : Bytes) w t, b.workers[id]? = some w →
    w.connection = some t → t = w.target
  suspended : b.suspended = true → b.grants = ∅

theorem Sound.new (core : Core) (now unixMs : Nat) (saved : List SavedAccess) :
    (new core now unixMs saved).Sound := by
  constructor <;> simp [Broker.new, Broker.runs]

variable {w : Worker} {b' : Broker} {slot : Bool} {mode : ApprovalMode} {r : ToolRequest}
  {answer : Answer}

theorem noReader_stage (none : b.noReader = true) {id : Bytes} (found : b.workers[id]? = some w) :
    w.stage ≠ .admitted := by
  have all := List.all_eq_true.mp none (id, w)
    (mem_toList_iff_getElem?_eq_some.mpr found)
  simpa using all

theorem Sound.evolves (sound : b.Sound) (evolves : b.Evolves b') : b'.Sound where
  submitted id run' found := by
    obtain ⟨run, foundRun, follows⟩ := evolves.was id run' found
    rw [evolves.submitted, follows.submission]
    exact sound.submitted id run foundRun
  granted id run' found := by
    obtain ⟨run, foundRun, follows⟩ := evolves.was id run' found
    rw [evolves.grants, follows.epoch, congrArg Submission.owner follows.submission]
    exact sound.granted id run foundRun
  opened id s' found := by
    obtain ⟨s, foundSession, owner, epoch, target, connection⟩ := evolves.sessions id s' found
    obtain ⟨g, t, holds, sameEpoch, among, connector, leads⟩ := sound.opened id s foundSession
    rw [evolves.grants, evolves.connectors, owner, epoch, target]
    refine ⟨g, t, holds, sameEpoch, among, connector, fun c isConnection => ?_⟩
    rcases connection c isConnection with before | before
    · exact leads c before
    · exact (some.inj (connector.symm.trans before)).symm
  placed id run' sid found inSession := by
    obtain ⟨run, foundRun, follows⟩ := evolves.was id run' found
    obtain ⟨drawn, fits⟩ := sound.placed id run sid foundRun (follows.session ▸ inSession)
    rw [evolves.connectors, follows.target, congrArg Submission.owner follows.submission]
    refine ⟨drawn, fun s' foundSession => ?_⟩
    obtain ⟨s, foundBefore, owner, _, target, _⟩ := evolves.sessions sid s' foundSession
    rw [owner, target]
    exact fits s foundBefore
  unstarted id run' found waits := by
    obtain ⟨run, foundRun, follows⟩ := evolves.was id run' found
    rw [evolves.workers]
    exact sound.unstarted id run foundRun (follows.waits waits)
  known id w found := by
    rw [evolves.submitted]
    exact sound.known id w (evolves.workers ▸ found)
  linked id w found active := by
    rcases sound.linked id w (evolves.workers ▸ found) active with stop | ⟨run, foundRun, works⟩
    · exact .inl (evolves.stopped stop)
    · rcases evolves.kept id run foundRun works with ⟨_, foundWorker, ended⟩ | stays
      · cases (evolves.workers ▸ found).symm.trans foundWorker
        exact absurd ended active
      · exact .inr stays
  admitted id w found stage stop := by
    have foundBefore := evolves.workers ▸ found
    rcases evolves.stops id stop with before | notAdmitted
    · exact sound.admitted id w foundBefore stage before
    · exact notAdmitted w foundBefore stage
  connected id w t found := sound.connected id w t (evolves.workers ▸ found)
  suspended isSuspended := by
    rw [evolves.grants]
    exact sound.suspended (evolves.suspended isSuspended)

/-! ## Access taken and given -/

variable {o : Bytes}

theorem not_matches_of_mem_filter {grants : Table Bytes Grant} (found : grants[o]? = some g)
    (other : matchesOwner owner o = false) :
    (grants.filter fun o _ => !matchesOwner owner o)[o]? = some g := by
  rw [getElem?_filter_of_kept _ fun _ => by simp [other]]
  exact found

/-- The rows a revocation leaves. -/
theorem getElem?_filter_owner {V : Type} {t : Table Bytes V} {keep : V → Bool} {id : Bytes} {v : V} :
    (t.filter fun _ v => keep v)[id]? = some v ↔ t[id]? = some v ∧ keep v = true := by
  rw [getElem?_filter', filter_eq_some_iff]

theorem Sound.revokeInner (sound : b.Sound) (none : b.noReader = true) (owner : Option Bytes) :
    (b.revokeInner owner).Sound where
  submitted id run found := sound.submitted id run (getElem?_filter_owner.mp found).1
  granted id run found := by
    obtain ⟨foundRun, other⟩ := getElem?_filter_owner.mp found
    obtain ⟨g, holds, epoch⟩ := sound.granted id run foundRun
    exact ⟨g, not_matches_of_mem_filter holds (by simpa using other), epoch⟩
  opened id s found := by
    obtain ⟨foundSession, other⟩ := getElem?_filter_owner.mp found
    obtain ⟨g, t, holds, rest⟩ := sound.opened id s foundSession
    exact ⟨g, t, not_matches_of_mem_filter holds (by simpa using other), rest⟩
  placed id run sid found inSession := by
    obtain ⟨drawn, fits⟩ := sound.placed id run sid (getElem?_filter_owner.mp found).1 inSession
    exact ⟨drawn, fun s foundSession => fits s (getElem?_filter_owner.mp foundSession).1⟩
  unstarted id run found := sound.unstarted id run (getElem?_filter_owner.mp found).1
  known := sound.known
  linked id w found active := by
    rcases sound.linked id w found active with stop | ⟨run, foundRun, works⟩
    · exact .inl (List.mem_append_right _ stop)
    · cases concerns : matchesOwner owner run.owner with
      | false =>
        exact .inr ⟨run, getElem?_filter_owner.mpr ⟨foundRun, by simp [concerns]⟩, works⟩
      | true =>
        refine .inl (List.mem_append_left _ (List.mem_map.mpr ⟨(id, run), ?_, rfl⟩))
        exact List.mem_filter.mpr ⟨mem_toList_iff_getElem?_eq_some.mpr foundRun, concerns⟩
  admitted id w found stage := absurd stage (noReader_stage none found)
  connected := sound.connected
  suspended isSuspended := by
    have empty := sound.suspended isSuspended
    change b.grants.filter _ = ∅
    rw [empty]
    rfl

theorem Sound.addGrant (sound : b.Sound) (without : b.grants[o]? = none)
    (active : b.suspended = false) (g : Grant) :
    ({ b with grants := b.grants.insert o g }).Sound := by
  refine { sound with
    granted := fun id run found => ?_
    opened := fun id s found => ?_
    suspended := fun isSuspended => nomatch active.symm.trans isSuspended }
  · obtain ⟨held, holds, epoch⟩ := sound.granted id run found
    exact ⟨held, insert_of_free without holds, epoch⟩
  · obtain ⟨held, t, holds, rest⟩ := sound.opened id s found
    exact ⟨held, t, insert_of_free without holds, rest⟩

/-! ## Commands submitted and started -/

theorem Sound.addRun (sound : b.Sound) {id : Bytes} (fresh : b.submitted[id]? = none)
    (granted : ∃ g, b.grants[run.owner]? = some g ∧ g.epoch = run.epoch)
    (placed : ∀ sid : Bytes, run.session = some sid → b.connectors[sid]? ≠ none ∧
      ∀ s, b.sessions[sid]? = some s → s.owner = run.owner ∧ s.target = run.target) :
    ({ b with
      records := { b.records with runs := b.runs.insert id run }
      submitted := b.submitted.insert id run.toSubmission }).Sound := by
  have keeps {k : Bytes} (other : id ≠ k) :
      (b.submitted.insert id run.toSubmission)[k]? = b.submitted[k]? := by
    rw [getElem?_insert, if_neg other]
  have unsubmitted {k : Bytes} {c : Submission} (known : b.submitted[k]? = some c) : id ≠ k := by
    rintro rfl
    rw [fresh] at known
    cases known
  refine { sound with
    submitted := fun k r found => ?_
    granted := fun k r found => ?_
    placed := fun k r sid found inSession => ?_
    unstarted := fun k r found waits => ?_
    known := fun k w found => ?_
    linked := fun k w found active => ?_ }
  · rcases of_insert found with ⟨rfl, rfl⟩ | ⟨other, before⟩
    · exact getElem?_insert_self
    · exact (keeps other).trans (sound.submitted k r before)
  · rcases of_insert found with ⟨rfl, rfl⟩ | ⟨_, before⟩
    · exact granted
    · exact sound.granted k r before
  · rcases of_insert found with ⟨rfl, rfl⟩ | ⟨_, before⟩
    · exact placed sid inSession
    · exact sound.placed k r sid before inSession
  · rcases of_insert found with ⟨rfl, rfl⟩ | ⟨_, before⟩
    · cases worker : b.workers[id]? with
      | none => rfl
      | some w =>
        obtain ⟨c, known, _⟩ := sound.known id w worker
        exact absurd rfl (unsubmitted known)
    · exact sound.unstarted k r before waits
  · obtain ⟨c, known, rest⟩ := sound.known k w found
    exact ⟨c, (keeps (unsubmitted known)).trans known, rest⟩
  · obtain ⟨c, known, _⟩ := sound.known k w found
    refine (sound.linked k w found active).imp_right ?_
    rintro ⟨r, before, works⟩
    exact ⟨r, (getElem?_insert ..).trans ((if_neg (unsubmitted known)).trans before), works⟩

/-- A thread is created, or moves on. -/
theorem Sound.setWorker (sound : b.Sound) {id : Bytes}
    (started : ∀ run, b.runs[id]? = some run → waiting run = false)
    (known : ∃ c, b.submitted[id]? = some c ∧ w.command = withEnv c.command c.cwd c.env ∧
      w.stdin = c.stdin)
    (linked : w.stage ≠ .ended → id ∈ b.stopped ∨ ∃ run, b.runs[id]? = some run ∧ run.worker = true)
    (admitted : w.stage = .admitted → id ∉ b.stopped)
    (connected : ∀ t, w.connection = some t → t = w.target) :
    ({ b with workers := b.workers.insert id w }).Sound := by
  refine { sound with
    unstarted := fun k run found waits => ?_
    known := fun k w' found => ?_
    linked := fun k w' found active => ?_
    admitted := fun k w' found stage => ?_
    connected := fun k w' t found => ?_ }
  · have other : id ≠ k := by
      rintro rfl
      rw [started run found] at waits
      cases waits
    exact (getElem?_insert ..).trans ((if_neg other).trans (sound.unstarted k run found waits))
  · rcases of_insert found with ⟨rfl, rfl⟩ | ⟨_, before⟩
    · exact known
    · exact sound.known k w' before
  · rcases of_insert found with ⟨rfl, rfl⟩ | ⟨_, before⟩
    · exact linked active
    · exact sound.linked k w' before active
  · rcases of_insert found with ⟨rfl, rfl⟩ | ⟨_, before⟩
    · exact admitted stage
    · exact sound.admitted k w' before stage
  · rcases of_insert found with ⟨rfl, rfl⟩ | ⟨_, before⟩
    · exact connected t
    · exact sound.connected k w' t before

theorem Sound.moveWorker (sound : b.Sound) {id : Bytes} {w' : Worker}
    (found : b.workers[id]? = some w) (active : w.stage ≠ .ended) (command : w'.command = w.command)
    (stdin : w'.stdin = w.stdin) (connected : ∀ t, w'.connection = some t → t = w'.target)
    (admitted : w'.stage = .admitted → id ∉ b.stopped) :
    ({ b with workers := b.workers.insert id w' }).Sound := by
  apply sound.setWorker
  · intro run foundRun
    cases waits : waiting run with
    | false => rfl
    | true => exact nomatch found.symm.trans (sound.unstarted id run foundRun waits)
  · rw [command, stdin]
    exact sound.known id w found
  · exact fun _ => sound.linked id w found active
  · exact admitted
  · exact connected

variable {grant : Grant} {owner target : Bytes}

theorem Sound.startConnection (sound : b.Sound) {id : Bytes} {target t : Target}
    (found : b.runs[id]? = some run) (holds : b.grants[run.owner]? = some grant)
    (among : grant.targets[run.target]? = some target)
    (connects : b.startConnection slot run.session = .ok (some t)) :
    t = target ∧ ∃ sid s, run.session = some sid ∧ b.sessions[sid]? = some s ∧ s.owner = run.owner := by
  cases inSession : run.session with
  | none =>
    simp only [inSession, Broker.startConnection, bind_eq_ok] at connects
    obtain ⟨_, _, isNone⟩ := connects
    cases isNone
  | some sid =>
    simp only [inSession, Broker.startConnection, bind_eq_ok, okOr_eq_ok, map_eq_ok,
      filter_eq_some_iff] at connects
    obtain ⟨s, ⟨foundSession, _⟩, c, isConnection, isSome⟩ := connects
    obtain rfl : c = t := some.inj isSome
    obtain ⟨_, fits⟩ := sound.placed id run sid found inSession
    obtain ⟨owner, onTarget⟩ := fits s foundSession
    obtain ⟨g, _, holds', _, among', _, leads⟩ := sound.opened sid s foundSession
    rw [owner, holds] at holds'
    cases holds'
    rw [onTarget, among] at among'
    cases among'
    exact ⟨leads c isConnection, sid, s, rfl, foundSession, owner⟩

theorem started_waits (now : Nat) (connection : Option Target) (run : Run) :
    waiting (started now connection run) = false := by
  cases connection <;> rfl

theorem started_follows (run : Run) :
    run.Follows (started now connection run) :=
  ⟨rfl, rfl, rfl, rfl, fun waits => nomatch (started_waits now connection run).symm.trans waits⟩

/-- What an allowed start finds and leaves. -/
theorem launch_eq_ok {id : Bytes} (launched : b.launch id run mode slot = .ok b') :
    ∃ grant target connection, b.grants[run.owner]? = some grant ∧ grant.epoch = run.epoch ∧
      grant.unexpired b.now = true ∧ grant.approvalMode = mode ∧
      grant.targets[run.target]? = some target ∧
      b.startConnection slot run.session = .ok connection ∧
      b' = { b.modifyRun id (started b.now connection) with
        workers := b.workers.insert id
          { target, connection
            deadline := startDeadline b.now grant run
            command := withEnv run.command run.cwd run.env
            stdin := run.stdin
            stage := .recording } } := by
  simp only [launch, bind_eq_ok, okOr_eq_ok, require_eq_ok, filter_eq_some_iff,
    Bool.and_eq_true, beq_iff_eq, exists_const] at launched
  obtain ⟨grant, ⟨holds, epoch, unexpired⟩, approval, target, among, connection, connects, done⟩ :=
    launched
  cases done
  exact ⟨grant, target, connection, holds, epoch, unexpired, approval, among, connects, rfl⟩

theorem getElem?_modifyRun {id : Bytes} (f : Run → Run) (found : b.runs[id]? = some run) :
    (b.modifyRun id f).runs[id]? = some (f run) := by
  refine ((b.runs.getElem?_updateWhere _ _ id).trans (congrArg _ found)).trans ?_
  simp

theorem Sound.launch (sound : b.Sound) {id : Bytes} (found : b.runs[id]? = some run)
    (launched : b.launch id run mode slot = .ok b') : b'.Sound := by
  obtain ⟨_, _, connection, holds, _, _, _, among, connects, rfl⟩ := launch_eq_ok launched
  have modified : (b.modifyRun id (started b.now connection)).Sound :=
    sound.evolves (.modifyRun b started_follows fun _ _ => rfl)
  have foundAfter := getElem?_modifyRun (started b.now connection) found
  apply modified.setWorker
  · intro r foundRun
    cases foundAfter.symm.trans foundRun
    exact started_waits ..
  · exact ⟨run.toSubmission, sound.submitted id run found, rfl, rfl⟩
  · exact fun _ => .inr ⟨_, foundAfter, rfl⟩
  · exact fun stage => nomatch stage
  · rintro t isConnection
    obtain rfl : connection = some t := isConnection
    exact (sound.startConnection found holds among connects).1

/-! ## Threads -/

theorem concluded_follows {id : Bytes} (run : Run) : run.Follows (b.concluded id w run) := by
  unfold concluded
  split
  · refine ⟨rfl, rfl, rfl, rfl, fun waits => ?_⟩
    simp only [waiting, Run.finish, outcome] at waits
    split at waits <;> cases waits
  · exact ⟨rfl, rfl, rfl, rfl, fun waits => waits⟩

theorem Sound.workerStep (sound : b.Sound) {id : Bytes} {step : WorkerStep}
    (found : b.workers[id]? = some w) (follows : Event.WorkerStep.follows step w.stage = true) :
    (b.workerStep id w step).Sound := by
  have active : w.stage ≠ .ended := by
    intro ended
    rw [ended] at follows
    cases step <;> cases follows
  have leads := fun t => sound.connected id w t found
  -- a thread that ended lets go of its run
  have ended {b' : Broker} (evolves : (b.setStage id w .ended).Evolves b') : b'.Sound :=
    have moved : (b.setStage id w .ended).Sound :=
      sound.moveWorker found active rfl rfl leads (fun stage => nomatch stage)
    moved.evolves evolves
  have endedWorker : (b.setStage id w .ended).workers[id]? = some { w with stage := .ended } :=
    getElem?_insert_self
  have letsGo (f : Run → Run) (follows : ∀ run : Run, run.Follows (f run)) :
      (b.setStage id w .ended).Evolves ((b.modifyRun id f).setStage id w .ended) := by
    have other (k : Bytes) (r : Run) (foundRun : b.runs[k]? = some r) :
        (b.modifyRun id f).runs[k]? = some (if k == id then f r else r) :=
      (b.runs.getElem?_updateWhere _ _ k).trans (congrArg _ foundRun)
    refine { Evolves.refl (b.setStage id w .ended) with
      was := fun k run' foundRun => ?_, kept := fun k run foundRun works => ?_ }
    · obtain ⟨r, before, rfl⟩ := map_eq_some_iff.mp ((b.runs.getElem?_updateWhere ..) ▸ foundRun)
      refine ⟨r, before, ?_⟩
      split
      · exact follows r
      · exact .refl r
    · by_cases same : k = id
      · exact .inl ⟨{ w with stage := .ended }, by rw [same]; exact endedWorker, rfl⟩
      · exact .inr ⟨run, (other k run foundRun).trans (by simp [same]), works⟩
  cases step with
  | records failure =>
    cases failure with
    | none => exact sound.moveWorker found active rfl rfl leads fun stage => nomatch stage
    | some error =>
      refine ended (letsGo _ fun run => ?_)
      refine ⟨rfl, rfl, rfl, rfl, fun waits => ?_⟩
      simp [waiting, Run.finish] at waits
  | connects failure =>
    simp only [Broker.workerStep, workerConnects]
    split
    · exact sound.moveWorker found active rfl rfl leads fun stage => nomatch stage
    · exact sound.moveWorker found active rfl rfl (fun t same => (some.inj same).symm)
        fun stage => nomatch stage
    · rename_i error _
      have moved : (b.setStage id w (.failed error)).Sound :=
        sound.moveWorker found active rfl rfl leads fun stage => nomatch stage
      refine moved.evolves { Evolves.refl (b.setStage id w (.failed error)) with
        stopped := List.subset_cons_self _ _, stops := fun k stop => ?_ }
      rcases List.mem_cons.mp stop with rfl | before
      · refine .inr fun w' foundAfter => ?_
        obtain rfl := some.inj (getElem?_insert_self.symm.trans foundAfter)
        exact fun stage => nomatch stage
      · exact .inl before
  | checks =>
    simp only [Broker.workerStep, workerChecks]
    split
    · exact sound.moveWorker found active rfl rfl leads fun stage => nomatch stage
    · rename_i passes
      refine sound.moveWorker found active rfl rfl leads fun _ stop => passes ?_
      simp [cancelled, stop]
  | executes failure =>
    have modified : (b.modifyRun id fun run => { run with state := .running }).Sound :=
      sound.evolves (.modifyRun b (fun run => ⟨rfl, rfl, rfl, rfl, fun waits => nomatch waits⟩)
        fun _ works => works)
    refine modified.moveWorker found active rfl rfl leads ?_
    cases failure <;> exact fun stage => nomatch stage
  | ends =>
    refine ended ?_
    have gone := letsGo (b.concluded id w) concluded_follows
    refine { gone with sessions := fun k s' foundSession => ?_ }
    obtain ⟨s, before, rfl⟩ := map_eq_some_iff.mp
      ((b.sessions.getElem?_updateWhere ..) ▸ foundSession)
    refine ⟨s, before, ?_⟩
    split <;> exact ⟨rfl, rfl, rfl, fun _ => .inl⟩

/-! ## Tool requests -/

/-- What a request that succeeds finds. -/
theorem request_eq_ok {id : Bytes} (served : b.request owner revision r id slot = .ok (answer, b'))
    :
    ∃ grant, b.grants[owner]? = some grant ∧ grant.revision = revision ∧
      grant.unexpired b.now = true ∧ b.tool owner grant id slot r = .ok (answer, b') := by
  simp only [request, bind_eq_ok, okOr_eq_ok, require_eq_ok, Bool.and_eq_true, beq_iff_eq,
    exists_const] at served
  obtain ⟨grant, holds, ⟨current, unexpired⟩, ran⟩ := served
  exact ⟨grant, holds, current, unexpired, ran⟩

/-- Only closed sessions of the integration make room for a new one. -/
theorem admitSession_eq_some (admitted : b.admitSession owner retained = some sessions) :
    (∀ (id : Bytes) s, sessions[id]? = some s → b.sessions[id]? = some s) ∧
    ∀ (id : Bytes) s, b.sessions[id]? = some s → s.owner ≠ owner → sessions[id]? = some s := by
  simp only [admitSession] at admitted
  split at admitted
  · cases admitted
  · cases admitted
    constructor
    · intro id s found
      rw [getElem?_filter', filter_eq_some_iff] at found
      exact found.1
    · intro _ s found other
      rw [getElem?_filter', filter_eq_some_iff]
      refine ⟨found, ?_⟩
      simp only [Bool.not_eq_true', List.contains_eq_mem, decide_eq_false_iff_not, List.mem_map,
        not_exists, not_and]
      rintro ⟨_, k⟩ taken rfl
      have sorted := List.mem_of_mem_take taken
      rw [List.mem_mergeSort] at sorted
      obtain ⟨⟨_, _⟩, listed, same⟩ := List.mem_map.mp sorted
      obtain ⟨inTable, closed⟩ := List.mem_filter.mp listed
      cases same
      have found' := mem_toList_iff_getElem?_eq_some.mp inTable
      cases found.symm.trans found'
      simp only [Bool.and_eq_true, beq_iff_eq] at closed
      exact other closed.1

variable {session : Option Bytes}

/-- A command that names a session names one of its owner, and takes its target. -/
theorem placeOf_eq_ok (placed : b.placeOf owner place = .ok (session, target))
    (inSession : session = some sid) :
    ∃ s, b.sessions[sid]? = some s ∧ s.owner = owner ∧ s.target = target := by
  subst inSession
  cases place with
  | oneShot t => cases placed
  | existing sid' =>
    simp only [placeOf, bind_eq_ok, okOr_eq_ok, filter_eq_some_iff, beq_iff_eq] at placed
    obtain ⟨s, ⟨found, owned⟩, done⟩ := placed
    cases done
    exact ⟨s, found, owned, rfl⟩

/-- What a tool request does to the broker. -/
inductive ToolEffect (b : Broker) (owner : Bytes) (grant : Grant) (id : Bytes) :
    ToolRequest → Broker → Prop where
  | nothing {r : ToolRequest} : ToolEffect b owner grant id r b
  | opens {target key : Bytes} {leadsTo : Target} {sessions : Table Bytes Session}
      (among : grant.targets[target]? = some leadsTo)
      (admitted : b.admitSession owner grant.limits.retainedSessions = some sessions) :
      ToolEffect b owner grant id (.openSession target key) { b with
        sessions := sessions.insert id (b.newSession owner grant target key)
        connectors := b.connectors.insert id leadsTo }
  | closes {session : Bytes} {s : Session} (found : b.sessions[session]? = some s)
      (owned : s.owner = owner) :
      ToolEffect b owner grant id (.closeSession session) { b with
        sessions := b.sessions.insert session
          { s with cancel := true, state := .closed, connection := none }
        stopped := b.runsIn owner session ++ b.stopped
        records := { b.records with
          runs := b.runs.updateWhere (fun id r => (b.runsIn owner session).contains id && waiting r)
            (Run.finish b.now .cancelled none) } }
  | submits {r : RunCommand} {session : Option Bytes} {target : Bytes} {timeoutMs : Nat}
      {records : Records}
      (placed : b.placeOf owner r.place = .ok (session, target))
      (admitted : b.records.admitRun owner grant.limits.retainedCommands b.limits.retainedCommands =
        some records) :
      ToolEffect b owner grant id (.runCommand r) { b with
        records := { records with
          runs := records.runs.insert id (b.newRun owner grant session target timeoutMs r) }
        submitted := b.submitted.insert id
          (b.newRun owner grant session target timeoutMs r).toSubmission }
  | cancels {k : Bytes} {run : Run} (found : b.runs[k]? = some run) (owned : run.owner = owner) :
      ToolEffect b owner grant id (.cancelCommand k)
        { b.modifyRun k (cancelRun b.now) with stopped := k :: b.stopped }

/-- Whether everything an answer is written from belongs to an integration. -/
def Answer.OwnedBy (owner : Bytes) : Answer → Prop
  | .targets _ => True
  | .sessions listed => ∀ entry ∈ listed, entry.2.owner = owner
  | .commands listed => ∀ entry ∈ listed, entry.2.owner = owner

theorem ownedBy_of_find? {V : Type} {entries : List (Bytes × V)} {owns : Bytes × V → Bool}
    {P : Bytes × V → Prop} {found : Bytes × V} (isFirst : entries.find? owns = some found)
    (owned : ∀ entry, owns entry = true → P entry) (entry : Bytes × V) (mem : entry ∈ [found]) :
    P entry := by
  obtain rfl := List.mem_singleton.mp mem
  exact owned entry (List.find?_some isFirst)

theorem tool_eq_ok {id : Bytes} (ran : b.tool owner grant id slot r = .ok (answer, b')) :
    ToolEffect b owner grant id r b' ∧ Answer.OwnedBy owner answer := by
  have single {V : Type} {P : Bytes × V → Prop} {found : Bytes × V} (owned : P found) :
      ∀ entry ∈ [found], P entry := fun entry mem => List.mem_singleton.mp mem ▸ owned
  cases r with
  | listCommands | listSessions =>
    cases ran
    refine ⟨.nothing, fun entry mem => ?_⟩
    simpa using (List.mem_filter.mp mem).2
  | listTargets =>
    cases ran
    exact ⟨.nothing, trivial⟩
  | openSession target key =>
    simp only [tool, openSession] at ran
    split at ran
    case h_1 found isFirst =>
      split at ran
      · cases ran
        refine ⟨.nothing, ownedBy_of_find? isFirst fun entry owns => ?_⟩
        simp only [Bool.and_eq_true, beq_iff_eq] at owns
        exact owns.1.1
      · cases ran
    case h_2 =>
      simp only [startSession, bind_eq_ok, okOr_eq_ok, require_eq_ok, exists_const] at ran
      obtain ⟨_, _, among, _, _, admitted, done⟩ := ran
      cases done
      exact ⟨.opens among admitted, single rfl⟩
  | closeSession session =>
    simp only [tool, closeSession, bind_eq_ok, okOr_eq_ok, filter_eq_some_iff, beq_iff_eq] at ran
    obtain ⟨s, ⟨found, owned⟩, done⟩ := ran
    cases done
    exact ⟨.closes found owned, single owned⟩
  | runCommand r =>
    simp only [tool, runCommand, bind_eq_ok, require_eq_ok, exists_const, Prod.exists] at ran
    obtain ⟨_, _, placed, _, ran⟩ := ran
    split at ran
    case h_1 found isFirst =>
      split at ran
      · cases ran
        refine ⟨.nothing, ownedBy_of_find? isFirst fun entry owns => ?_⟩
        simp only [Bool.and_eq_true, beq_iff_eq] at owns
        exact owns.1.1
      · cases ran
    case h_2 =>
      simp only [submitRun, bind_eq_ok, okOr_eq_ok, require_eq_ok, exists_const] at ran
      obtain ⟨_, _, _, _, _, _, admitted, done⟩ := ran
      cases done
      exact ⟨.submits placed admitted, single rfl⟩
  | getCommand k =>
    simp only [tool, bind_eq_ok, okOr_eq_ok, filter_eq_some_iff, beq_iff_eq] at ran
    obtain ⟨run, ⟨_, owned⟩, done⟩ := ran
    cases done
    exact ⟨.nothing, single owned⟩
  | cancelCommand k =>
    simp only [tool, cancelCommand, bind_eq_ok, okOr_eq_ok, filter_eq_some_iff, beq_iff_eq] at ran
    obtain ⟨run, ⟨found, owned⟩, done⟩ := ran
    split at done
    · cases done
      exact ⟨.nothing, single owned⟩
    · cases done
      refine ⟨.cancels found owned, single ?_⟩
      unfold cancelRun
      split <;> exact owned

theorem cancelRun_follows (run : Run) : run.Follows (cancelRun now run) := by
  unfold cancelRun
  split
  · exact finish_follows (by decide) run
  · exact ⟨rfl, rfl, rfl, rfl, fun waits => nomatch waits⟩

theorem cancelRun_worker : (cancelRun now run).worker = run.worker := by
  unfold cancelRun
  split <;> rfl

/-- What a section stops while no worker is past its last check. -/
theorem stops_of_noReader (none : b.noReader = true) {stopped : List Bytes} (id : Bytes)
    (_ : id ∈ stopped) : id ∈ b.stopped ∨ ∀ w, b.workers[id]? = some w → w.stage ≠ .admitted :=
  .inr fun _ found => noReader_stage none found

theorem Sound.toolEffect (sound : b.Sound) {id : Bytes} (holds : b.grants[owner]? = some grant)
    (unsubmitted : b.submitted[id]? = none) (undrawn : b.connectors[id]? = none)
    (none : (∃ k, r = .closeSession k ∨ r = .cancelCommand k) → b.noReader = true)
    (effect : ToolEffect b owner grant id r b') : b'.Sound := by
  cases effect with
  | nothing => exact sound
  | closes found owned =>
    rename_i session s
    have records : b.records.Evolves ⟨b.runs.updateWhere
        (fun id r => (b.runsIn owner session).contains id && waiting r)
        (Run.finish b.now .cancelled Option.none), b.records.retainedBytes⟩ :=
      .updateWhere _ (finish_follows (by decide)) fun _ works => works
    refine sound.evolves { Evolves.of_records records with
      sessions := fun k s' foundSession => ?_
      stopped := List.subset_append_right _ _
      stops := stops_of_noReader (none ⟨session, .inl rfl⟩) }
    obtain ⟨rfl, rfl⟩ | ⟨-, foundSession⟩ := of_insert foundSession
    · exact ⟨s, found, rfl, rfl, rfl, nofun⟩
    · exact ⟨s', foundSession, rfl, rfl, rfl, fun _ => .inl⟩
  | cancels found owned =>
    rename_i k run
    have modified : b.Evolves (b.modifyRun k (cancelRun b.now)) :=
      .modifyRun b cancelRun_follows fun r works => cancelRun_worker.trans works
    exact sound.evolves { modified with
      stopped := List.subset_cons_self _ _
      stops := stops_of_noReader (none ⟨k, .inr rfl⟩) }
  | opens among admitted =>
    rename_i target key leadsTo sessions
    obtain ⟨kept, _⟩ := admitSession_eq_some admitted
    have other {k : Bytes} (drawn : b.connectors[k]? ≠ Option.none) : id ≠ k := by
      rintro rfl
      exact drawn undrawn
    have keeps {k : Bytes} (differs : id ≠ k) :
        (b.connectors.insert id leadsTo)[k]? = b.connectors[k]? :=
      (getElem?_insert ..).trans (if_neg differs)
    refine { sound with
      opened := fun k s found => ?_, placed := fun k run sid found inSession => ?_ }
    · obtain ⟨rfl, rfl⟩ | ⟨-, found⟩ := of_insert found
      · exact ⟨grant, leadsTo, holds, rfl, among, getElem?_insert_self, nofun⟩
      · obtain ⟨g, t, held, epoch, onTarget, connector, leads⟩ := sound.opened k s (kept k s found)
        refine ⟨g, t, held, epoch, onTarget, ?_, leads⟩
        rw [keeps (other (by simp [connector]))]
        exact connector
    · obtain ⟨drawn, fits⟩ := sound.placed k run sid found inSession
      rw [keeps (other drawn)]
      refine ⟨drawn, fun s foundSession => ?_⟩
      refine fits s (kept sid s ?_)
      exact ((getElem?_insert ..).trans (if_neg (other drawn))).symm.trans foundSession
  | submits placed admitted =>
    have evicted := sound.evolves (.of_records (Records.admitRun_evicts admitted).evolves)
    refine evicted.addRun unsubmitted ⟨grant, holds, rfl⟩ fun sid inSession => ?_
    obtain ⟨s, found, owned, onTarget⟩ := placeOf_eq_ok placed inSession
    obtain ⟨_, _, _, _, _, connector, _⟩ := sound.opened sid s found
    refine ⟨by simp [connector], fun s' foundAgain => ?_⟩
    cases found.symm.trans foundAgain
    exact ⟨owned, onTarget⟩

/-! ## All sections -/

variable {sweepNow : Nat}

theorem expireApproval_follows (run : Run) : run.Follows (expireApproval sweepNow now run) := by
  unfold expireApproval
  split
  · exact finish_follows (by decide) run
  · exact .refl run

theorem expireApproval_worker : (expireApproval sweepNow now run).worker = run.worker := by
  unfold expireApproval
  split <;> rfl

theorem sweepSession_due (b : Broker) (now : Nat) (invalid : List Bytes) (id : Bytes) (s : Session) :
    b.sweepSession now invalid id s = s ∨
      ((s.state = .ready ∧ s.idle + 300000 ≤ now) ∨ id ∈ invalid) ∧
      ∃ error, b.sweepSession now invalid id s = s.close error := by
  unfold sweepSession
  dsimp only
  split
  case isTrue idle =>
    refine .inr ⟨.inl ⟨idle.1, idle.2.2⟩, ?_⟩
    split
    · exact ⟨some .connectionLost, by simp [Session.close]⟩
    · exact ⟨none, rfl⟩
  case isFalse =>
    split
    case isTrue lost => exact .inr ⟨.inr (by simpa using lost.1), some .connectionLost, rfl⟩
    case isFalse => exact .inl rfl

theorem Evolves.sweepState (b : Broker) (sweepNow : Nat) (invalid : List Bytes) :
    b.Evolves (b.sweepState sweepNow invalid) := by
  have records : b.records.Evolves ⟨b.runs.updateWhere (fun _ _ => true)
      (expireApproval sweepNow b.now), b.records.retainedBytes⟩ :=
    .updateWhere _ expireApproval_follows fun r works => expireApproval_worker.trans works
  refine { Evolves.of_records records with sessions := fun k s' found => ?_ }
  obtain ⟨s, before, rfl⟩ := map_eq_some_iff.mp ((Std.ExtTreeMap.getElem?_map ..).symm.trans found)
  refine ⟨s, before, ?_⟩
  rcases sweepSession_due _ sweepNow invalid k s with same | ⟨_, _, closed⟩
  · rw [same]
    exact ⟨rfl, rfl, rfl, fun _ => .inl⟩
  · rw [closed]
    exact ⟨rfl, rfl, rfl, fun _ isConnection => nomatch isConnection⟩

theorem Evolves.sessionConnected (b : Broker) {id : Bytes} {target : Target}
    (drawn : b.connectors[id]? = some target) (failure : Option ToolError) :
    b.Evolves (b.sessionConnected id target failure) := by
  refine { Evolves.refl b with sessions := fun k s' found => ?_ }
  obtain ⟨s, before, rfl⟩ := map_eq_some_iff.mp ((b.sessions.getElem?_updateWhere ..) ▸ found)
  refine ⟨s, before, ?_⟩
  split
  case isFalse => exact ⟨rfl, rfl, rfl, fun _ => .inl⟩
  case isTrue concerns =>
    simp only [Bool.and_eq_true, beq_iff_eq] at concerns
    cases failure with
    | some error => exact ⟨rfl, rfl, rfl, fun _ => .inl⟩
    | none =>
      dsimp only
      split
      · exact ⟨rfl, rfl, rfl, fun _ => .inl⟩
      · refine ⟨rfl, rfl, rfl, fun t same => .inr ?_⟩
        rw [concerns.1, drawn]
        exact same

theorem Evolves.outputData (b : Broker) (id : Bytes) (length taken : Nat) :
    b.Evolves (b.outputData id length taken) := by
  unfold Broker.outputData
  dsimp only
  split
  · exact .refl b
  · split
    · exact .refl b
    · apply Evolves.of_records
      exact (b.records.outputRoom_evicts _ _ _).evolves.trans
        (.updateWhere _ (fun _ => ⟨rfl, rfl, rfl, rfl, fun waits => waits⟩) fun _ works => works)

theorem Evolves.outputExited (b : Broker) (id : Bytes) (code : Option Nat) :
    b.Evolves (b.outputExited id code) := by
  apply Evolves.modifyRun b
  · intro run
    split
    · split
      · exact ⟨rfl, rfl, rfl, rfl, fun waits => nomatch waits⟩
      · exact ⟨rfl, rfl, rfl, rfl, fun waits => nomatch waits⟩
    · exact .refl run
  · intro _ works
    split
    · split <;> exact works
    · exact works

theorem Evolves.failUnstarted (b : Broker) (id : Bytes) (error : ToolError) :
    b.Evolves (b.failUnstarted id error) := by
  apply Evolves.modifyRun b
  · intro run
    split
    · exact finish_follows (by decide) run
    · exact .refl run
  · intro _ works
    split <;> exact works

/-- Changes of what no table depends on. -/
theorem Evolves.of_same (records : b'.records.runs = b.records.runs)
    (sessions : b'.sessions = b.sessions) (grants : b'.grants = b.grants)
    (submitted : b'.submitted = b.submitted) (workers : b'.workers = b.workers)
    (connectors : b'.connectors = b.connectors) (stopped : b'.stopped = b.stopped)
    (suspended : b'.suspended = true → b.suspended = true) : b.Evolves b' where
  was id run' found := ⟨run', (congrArg (·[id]?) records).symm.trans found, .refl run'⟩
  kept id run found works := .inr ⟨run, (congrArg (·[id]?) records).trans found, works⟩
  sessions := sessions_of_same fun _ _ found => sessions ▸ found
  grants := grants
  submitted := submitted
  workers := workers
  connectors := connectors
  stopped := stopped ▸ List.Subset.refl _
  stops _ stop := .inl (stopped ▸ stop)
  suspended := suspended

theorem orUnchanged_keeps {P : Broker → Prop} (before : P b) (after : ∀ b', result = .ok b' → P b')
    : P (b.orUnchanged result) := by
  cases result with
  | error e => exact before
  | ok b' => exact after b' rfl

theorem Sound.revoke (sound : b.Sound) (none : b.noReader = true) (owner : Option Bytes) :
    (b.revoke owner).Sound := by
  have counted : ({ b with revocationEpoch := b.revocationEpoch + 1 }).Sound :=
    sound.evolves (.of_same rfl rfl rfl rfl rfl rfl rfl id)
  exact counted.revokeInner none owner

theorem getElem?_revokeInner_self : (b.revokeInner (some owner)).grants[owner]? = none := by
  change (b.grants.filter _)[owner]? = none
  rw [getElem?_filter']
  cases b.grants[owner]? with
  | none => rfl
  | some g => simp [matchesOwner]

variable {p : PendingGrant} {epoch : Bytes}

theorem publishGrant_eq_ok (published : b.publishGrant p epoch = .ok b') :
    b.revocationEpoch = p.generation ∧ b.suspended = false ∧
      ∃ saved, b' = { ({ b with saved }).revokeInner (some p.owner) with
        grants := (({ b with saved }).revokeInner (some p.owner)).grants.insert p.owner
          (p.grant epoch b.now) } := by
  simp only [publishGrant, saveGrant, bind_eq_ok, require_eq_ok, exists_const, beq_iff_eq,
    Bool.not_eq_true'] at published
  obtain ⟨generation, active, _, _, ⟨_, _, _, done⟩, done'⟩ := published
  cases done
  cases done'
  exact ⟨generation, active, _, rfl⟩

theorem Sound.publishGrant (sound : b.Sound) (none : b.noReader = true)
    (published : b.publishGrant p epoch = .ok b') : b'.Sound := by
  obtain ⟨_, active, saved, rfl⟩ := publishGrant_eq_ok published
  have before : ({ b with saved }).Sound := sound.evolves (.of_same rfl rfl rfl rfl rfl rfl rfl id)
  exact (before.revokeInner none (some p.owner)).addGrant (getElem?_revokeInner_self) active _

theorem Sound.addGrants (sound : b.Sound) (active : b.suspended = false)
    (entries : List (Bytes × Grant)) :
    ({ b with grants := entries.foldl Broker.addGrant b.grants }).Sound := by
  induction entries generalizing b with
  | nil => exact sound
  | cons entry entries ih =>
    have added : ({ b with grants := Broker.addGrant b.grants entry }).Sound := by
      unfold Broker.addGrant
      split
      · exact sound
      · rename_i absent
        refine sound.addGrant ?_ active _
        simpa using absent
    exact ih added active

theorem Sound.restoreAccess (sound : b.Sound) (revision : Revision) (draws : List Draw) :
    (b.restoreAccess revision draws).Sound := by
  unfold Broker.restoreAccess
  split
  case isTrue => exact sound
  case isFalse live =>
    split
    case h_1 => exact sound
    case h_2 fingerprint _ =>
      split
      · exact sound
      · have active : b.suspended = false := by
          cases isSuspended : b.suspended with
          | false => rfl
          | true => simp [isSuspended] at live
        exact (sound.addGrants active _).evolves (.of_same rfl rfl rfl rfl rfl rfl rfl id)

theorem Sound.startRun (sound : b.Sound) {id : Bytes}
    (ran : b.startRun id allowed mode slot = .ok b') : b'.Sound := by
  simp only [Broker.startRun, bind_eq_ok, okOr_eq_ok, require_eq_ok, exists_const] at ran
  obtain ⟨_, found, _, ran⟩ := ran
  split at ran
  · exact sound.launch found ran
  · cases ran
    exact sound.evolves (.modifyRun b (finish_follows (by decide)) fun _ works => works)

/-- Sections that neither give nor take access, nor submit or start a command. -/
def quiet : Event → Bool
  | .clock .. | .core _ | .resolveGrant _ | .sweepState .. | .setLimits _ | .setManualApproval _
  | .approvalUnavailable _ | .failUnstarted .. | .sessionConnected .. | .outputData ..
  | .outputExited .. => true
  | _ => false

structure Rests (b b' : Broker) : Prop extends b.Evolves b' where
  epoch : b'.revocationEpoch = b.revocationEpoch
  saved : b'.saved = b.saved
  steady : b'.suspended = b.suspended

theorem Rests.refl (b : Broker) : b.Rests b := ⟨.refl b, rfl, rfl, rfl⟩

theorem step_rests {e : Event} (isQuiet : quiet e = true) : b.Rests (b.step e) := by
  cases e with
  | clock | core | setManualApproval =>
    exact ⟨.of_same rfl rfl rfl rfl rfl rfl rfl id, rfl, rfl, rfl⟩
  | resolveGrant r =>
    refine orUnchanged_keeps (.refl b) fun b' resolved => ?_
    obtain ⟨p, _, rfl⟩ := map_eq_ok.mp resolved
    exact ⟨.of_same rfl rfl rfl rfl rfl rfl rfl id, rfl, rfl, rfl⟩
  | sweepState sweepNow invalid => exact ⟨.sweepState b sweepNow invalid, rfl, rfl, rfl⟩
  | setLimits limits =>
    refine orUnchanged_keeps (.refl b) fun b' set => ?_
    simp only [Broker.setLimits, bind_eq_ok, require_eq_ok, exists_const] at set
    obtain ⟨_, done⟩ := set
    cases done
    have trimmed : b.Evolves _ := .of_records (b.records.trim_evicts limits).evolves
    exact ⟨{ trimmed with }, rfl, rfl, rfl⟩
  | approvalUnavailable id =>
    refine orUnchanged_keeps (.refl b) fun b' ended => ?_
    simp only [Broker.approvalUnavailable, bind_eq_ok, okOr_eq_ok, require_eq_ok, exists_const] at ended
    obtain ⟨_, _, _, done⟩ := ended
    cases done
    exact ⟨.modifyRun b (finish_follows (by decide)) fun _ works => works, rfl, rfl, rfl⟩
  | failUnstarted id error => exact ⟨.failUnstarted b id error, rfl, rfl, rfl⟩
  | sessionConnected id failure =>
    cases drawn : b.connectors[id]? with
    | none => simpa [Broker.step, drawn] using Rests.refl b
    | some target =>
      have rests : b.Rests _ := ⟨.sessionConnected b drawn failure, rfl, rfl, rfl⟩
      simpa [Broker.step, drawn] using rests
  | outputData id length taken =>
    refine ⟨.outputData b id length taken, ?_, ?_, ?_⟩
    all_goals
      simp only [Broker.step, Broker.outputData]
      split
      · rfl
      · split <;> rfl
  | outputExited id code => exact ⟨.outputExited b id code, rfl, rfl, rfl⟩
  | _ => cases isQuiet

/-- Every section keeps the tables together. -/
theorem Sound.step (sound : b.Sound) {e : Event} (enabled : e.Enabled b) : (b.step e).Sound := by
  obtain ⟨exclusive, ready⟩ := enabled
  cases e with
  | publishGrant p epoch =>
    exact orUnchanged_keeps sound fun b' => sound.publishGrant (exclusive rfl)
  | revoke owner => exact sound.revoke (exclusive rfl) owner
  | forgetAccess owner =>
    have revoked := sound.revoke (exclusive rfl) owner
    simp only [Broker.step, Broker.forgetAccess]
    split
    · exact revoked.evolves (.of_same rfl rfl rfl rfl rfl rfl rfl id)
    · exact revoked
  | suspend =>
    -- the grants are gone when the flag counts
    have revoked := sound.revoke (exclusive rfl) none
    refine { revoked with suspended := fun _ => ?_ }
    change b.grants.filter (fun _ _ => false) = ∅
    apply Std.ExtTreeMap.ext_getElem?
    intro k
    rw [getElem?_filter']
    cases b.grants[k]? <;> rfl
  | resumeIfCurrent epoch =>
    simp only [Broker.step, Broker.resumeIfCurrent]
    split
    · exact sound.evolves (.of_same rfl rfl rfl rfl rfl rfl rfl nofun)
    · exact sound
  | revokeExpired owner epoch =>
    simp only [Broker.step, Broker.revokeExpired]
    split
    · exact sound.revoke (exclusive rfl) _
    · exact sound
  | restoreAccess revision draws => exact sound.restoreAccess revision draws
  | request owner revision r id slot =>
    refine orUnchanged_keeps sound fun b' served => ?_
    obtain ⟨⟨_, _⟩, answered, rfl⟩ := map_eq_ok.mp served
    obtain ⟨_, holds, _, _, ran⟩ := request_eq_ok answered
    refine sound.toolEffect holds ready.1 ready.2 ?_ (tool_eq_ok ran).1
    rintro ⟨k, rfl | rfl⟩
    · exact exclusive rfl
    · exact exclusive rfl
  | startRun id allowed mode slot => exact orUnchanged_keeps sound fun b' => sound.startRun
  | worker id step =>
    obtain ⟨w, found, follows⟩ := ready
    simpa [Broker.step, found] using sound.workerStep found follows
  | _ => exact sound.evolves (step_rests rfl).toEvolves

theorem Reaches.sound {past : History} (reached : Reaches past b) : b.Sound := by
  induction reached with
  | new core now unixMs saved => exact .new core now unixMs saved
  | step _ enabled ih => exact ih.step enabled

end Broker

end UniSsh.Automation
