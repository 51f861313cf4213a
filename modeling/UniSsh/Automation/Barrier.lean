import UniSsh.Automation.Sections

/-!
# Revocation is a barrier

A revoked run leaves the table under the write side of `admission` and never returns, and its
thread is stopped or has ended.
-/

namespace UniSsh.Automation.Broker

open List Option

variable {earlier later : History} {s b : Broker} {e : Event}

/-- What holds after a section and is kept by those after it holds in every later state. -/
theorem Reaches.since {I : Broker → Prop} (reached : Reaches (later ++ (s, e) :: earlier) b)
    (start : s.Sound → e.Enabled s → I (s.step e))
    (keeps : ∀ entry ∈ later, entry.1.Sound → entry.2.Enabled entry.1 → I entry.1 →
      I (entry.1.step entry.2)) :
    I b ∧ ∀ entry ∈ later, entry.1.Sound ∧ entry.2.Enabled entry.1 ∧ I entry.1 := by
  induction later generalizing b with
  | nil =>
    cases reached with
    | step before enabled => exact ⟨start before.sound enabled, fun _ mem => nomatch mem⟩
  | cons _ _ ih =>
    cases reached with
    | step before enabled =>
      obtain ⟨now, all⟩ := ih before fun k mem => keeps k (mem_cons_of_mem _ mem)
      refine ⟨keeps _ mem_cons_self before.sound enabled now, fun k mem => ?_⟩
      rcases mem_cons.mp mem with rfl | older
      · exact ⟨before.sound, enabled, now⟩
      · exact all k older

theorem Reaches.before (reached : Reaches (later ++ (s, e) :: earlier) b) : Reaches earlier s := by
  induction later generalizing b with
  | nil =>
    cases reached with
    | step before => exact before
  | cons _ _ ih =>
    cases reached with
    | step before => exact ih before

/-- A section that takes the access of an integration away, and completes. -/
def TakesAccess (b : Broker) (e : Event) (o : Bytes) : Prop :=
  (∃ owner, (e = .revoke owner ∨ e = .forgetAccess owner) ∧ matchesOwner owner o = true) ∨
  e = .suspend ∨ b.Publishes e o

/-- A section that counts as a revocation. -/
def CountsRevocation (b : Broker) (e : Event) : Prop :=
  (∃ owner, e = .revoke owner ∨ e = .forgetAccess owner) ∨ e = .suspend ∨
  ∃ o epoch, e = .revokeExpired o epoch ∧ b.expired o epoch = true

theorem forgetAccess_runs (b : Broker) (owner : Option Bytes) :
    (b.forgetAccess owner).runs = (b.revoke owner).runs := by
  unfold Broker.forgetAccess
  dsimp only
  split <;> rfl

theorem not_owned_of_takesAccess (takes : s.TakesAccess e o) {id : Bytes}
    (found : (s.step e).runs[id]? = some run) : s.runs[id]? = some run ∧ run.owner ≠ o := by
  have filtered (owner : Option Bytes) (concerned : matchesOwner owner o = true)
      (found : (s.runs.filter fun _ r => !matchesOwner owner r.owner)[id]? = some run) :
      s.runs[id]? = some run ∧ run.owner ≠ o := by
    obtain ⟨before, other⟩ := getElem?_filter_owner.mp found
    refine ⟨before, ?_⟩
    rintro rfl
    rw [concerned] at other
    cases other
  rcases takes with ⟨owner, rfl | rfl, concerned⟩ | rfl | ⟨p, epoch, b', rfl, owned, published⟩
  · exact filtered owner concerned found
  · exact filtered owner concerned ((congrArg (·[id]?) (forgetAccess_runs s owner)).symm.trans found)
  · exact filtered none rfl found
  · have stepped : s.step (.publishGrant p epoch) = b' := by
      simp only [Broker.step, published]
      rfl
    rw [stepped] at found
    obtain ⟨_, _, _, rfl⟩ := publishGrant_eq_ok published
    exact filtered (some p.owner) (by simp [matchesOwner, owned]) found

/-- Submitted once, and out of the table. -/
def Gone (id : Bytes) (b : Broker) : Prop := b.submitted[id]? ≠ none ∧ b.runs[id]? = none

theorem Gone.step {id : Bytes} (gone : s.Gone id) (sound : s.Sound) (enabled : e.Enabled s) :
    (s.step e).Gone id := by
  have frame := step_frame sound enabled
  constructor
  · cases known : s.submitted[id]? with
    | none => exact absurd known gone.1
    | some c => simp [frame.submitted id c known]
  · cases found : (s.step e).runs[id]? with
    | none => rfl
    | some run =>
      rcases frame.runs id run found with ⟨_, inTable⟩ | fresh
      · exact nomatch inTable.symm.trans gone.2
      · exact absurd fresh gone.1

/-- What a call of `Connection::exec` finds: a thread past its last check. -/
theorem execOf_eq_some (sound : s.Sound) (enabled : e.Enabled s) (calls : s.execOf e = some x) :
    ∃ w failure, e = .worker x.run (.executes failure) ∧ s.workers[x.run]? = some w ∧
      w.stage = .admitted ∧ x = call x.run w := by
  cases e with
  | worker id step =>
    cases step with
    | executes failure =>
      simp only [execOf, bind_eq_bind, bind_eq_some_iff] at calls
      obtain ⟨w, found, t, connection, isCall⟩ := calls
      obtain ⟨_, found', _⟩ := enabled.2
      cases found.symm.trans found'
      obtain rfl := sound.connected id w t found connection
      cases isCall
      refine ⟨w, failure, rfl, found, ?_, rfl⟩
      cases stage : w.stage <;> simp_all [Event.WorkerStep.follows]
    | _ => cases calls
  | _ => cases calls

theorem run_of_execOf (sound : s.Sound) (enabled : e.Enabled s) (calls : s.execOf e = some x) :
    ∃ run, s.runs[x.run]? = some run := by
  obtain ⟨w, _, _, found, stage, _⟩ := execOf_eq_some sound enabled calls
  rcases sound.linked x.run w found (by rw [stage]; exact nofun) with stop | ⟨run, inTable, _⟩
  · exact absurd stop (sound.admitted x.run w found stage)
  · exact ⟨run, inTable⟩

theorem epoch_lt_of_counts (counts : s.CountsRevocation e) :
    s.revocationEpoch < (s.step e).revocationEpoch := by
  have forgets (owner : Option Bytes) :
      (s.forgetAccess owner).revocationEpoch = s.revocationEpoch + 1 := by
    unfold Broker.forgetAccess
    dsimp only
    split <;> rfl
  rcases counts with ⟨owner, rfl | rfl⟩ | rfl | ⟨o, _, rfl, isExpired⟩
  · exact Nat.lt_succ_self _
  · exact (forgets owner).symm ▸ Nat.lt_succ_self _
  · exact Nat.lt_succ_self _
  · simp only [Broker.step, revokeExpired, isExpired, if_true]
    exact Nat.lt_succ_self _

theorem Reaches.epoch_le (reached : Reaches past b) (entry : Broker × Event) (mem : entry ∈ past) :
    entry.1.revocationEpoch ≤ b.revocationEpoch := by
  induction reached with
  | new => cases mem
  | step before enabled ih =>
    have grows := (step_frame before.sound enabled).epoch
    rcases mem_cons.mp mem with rfl | older
    · exact grows
    · exact (ih older).trans grows

/-- Nothing of an integration is granted or saved. -/
def Forgotten (o : Bytes) (b : Broker) : Prop :=
  b.grants[o]? = none ∧ ∀ access ∈ b.saved, access.integrationId ≠ o

theorem Forgotten.step (forgotten : s.Forgotten o) (sound : s.Sound) (enabled : e.Enabled s)
    (unpublished : ¬ s.Publishes e o) : (s.step e).Forgotten o := by
  have frame := step_frame sound enabled
  constructor
  · cases found : (s.step e).grants[o]? with
    | none => rfl
    | some g =>
      rcases frame.grants o g found with ⟨_, before⟩ | published | ⟨access, mem, owned⟩
      · exact nomatch before.symm.trans forgotten.1
      · exact absurd published unpublished
      · exact absurd owned (forgotten.2 access mem)
  · rintro access mem rfl
    rcases frame.saved access mem with before | published
    · exact forgotten.2 access before rfl
    · exact unpublished published

theorem forgetAccess_forgotten (concerned : matchesOwner owner o = true)
    (returned : s.forgets = true) : (s.forgetAccess owner).Forgotten o := by
  have isForgotten : s.forgetAccess owner =
      { s.revoke owner with saved := s.saved.filter fun a => owner.any (a.integrationId != ·) } :=
    if_pos returned
  rw [isForgotten]
  constructor
  · change (s.grants.filter fun o _ => !matchesOwner owner o)[o]? = none
    rw [getElem?_filter']
    cases s.grants[o]? <;> simp [concerned]
  · rintro _ mem rfl
    obtain ⟨_, kept⟩ := mem_filter.mp mem
    cases owner with
    | none => cases kept
    | some =>
      simp only [matchesOwner, all_some, beq_iff_eq] at concerned
      simp [concerned] at kept

/-- Revocation is a barrier: no command submitted before it is sent, nothing is granted or sent
while suspended, a stale resumption does nothing, and only a publication grants again. -/
theorem revocation_is_barrier (reached : Reaches (later ++ (s, e) :: earlier) b) :
    (∀ (o id : Bytes) c, s.TakesAccess e o → s.submitted[id]? = some c → c.owner = o →
      ∀ entry ∈ later, ∀ x, entry.1.execOf entry.2 = some x → x.run ≠ id) ∧
    (e = .suspend → (∀ entry ∈ later, entry.2 ≠ .resumeIfCurrent entry.1.revocationEpoch) →
      b.grants = ∅ ∧ ∀ entry ∈ later, entry.1.grants = ∅ ∧ entry.1.execOf entry.2 = none) ∧
    (s.CountsRevocation e → ∀ entry ∈ (s, e) :: earlier,
      b.step (.resumeIfCurrent entry.1.revocationEpoch) = b) ∧
    (∀ owner (o : Bytes), e = .forgetAccess owner → matchesOwner owner o = true →
      s.forgets = true → (∀ entry ∈ later, ¬ entry.1.Publishes entry.2 o) →
      b.grants[o]? = none ∧ ∀ access ∈ b.saved, access.integrationId ≠ o) := by
  refine ⟨?_, ?_, ?_, ?_⟩
  · intro o id c takes known owned
    obtain ⟨_, all⟩ := reached.since (I := Gone id)
      (fun sound enabled => by
        refine ⟨by simp [(step_frame sound enabled).submitted id c known], ?_⟩
        cases found : (s.step e).runs[id]? with
        | none => rfl
        | some run =>
          obtain ⟨before, other⟩ := not_owned_of_takesAccess takes found
          rw [sound.submitted id run before] at known
          exact absurd ((congrArg Submission.owner (some.inj known)).trans owned) other)
      (fun entry _ sound enabled gone => gone.step sound enabled)
    rintro entry mem x calls rfl
    obtain ⟨sound, enabled, gone⟩ := all entry mem
    obtain ⟨run, inTable⟩ := run_of_execOf sound enabled calls
    exact nomatch inTable.symm.trans gone.2
  · rintro rfl unresumed
    obtain ⟨stays, all⟩ := reached.since (I := fun b => b.suspended = true) (fun _ _ => rfl)
      (fun entry mem sound enabled isSuspended =>
        ((step_frame sound enabled).suspended isSuspended).resolve_right (unresumed entry mem))
    refine ⟨reached.sound.suspended stays, fun entry mem => ?_⟩
    obtain ⟨sound, enabled, isSuspended⟩ := all entry mem
    have empty := sound.suspended isSuspended
    refine ⟨empty, ?_⟩
    cases calls : entry.1.execOf entry.2 with
    | none => rfl
    | some x =>
      obtain ⟨run, inTable⟩ := run_of_execOf sound enabled calls
      obtain ⟨g, holds, _⟩ := sound.granted x.run run inTable
      simp [empty] at holds
  · intro counts entry mem
    have grown : s.revocationEpoch < b.revocationEpoch := by
      obtain ⟨above, _⟩ := reached.since (I := fun b => s.revocationEpoch < b.revocationEpoch)
        (fun _ _ => epoch_lt_of_counts counts)
        (fun entry _ sound enabled above => above.trans_le (step_frame sound enabled).epoch)
      exact above
    have read : entry.1.revocationEpoch ≤ s.revocationEpoch := by
      rcases mem_cons.mp mem with rfl | older
      · exact Nat.le_refl _
      · exact reached.before.epoch_le entry older
    exact if_neg (by omega)
  · rintro _ o rfl concerned returned unpublished
    exact (reached.since (I := Forgotten o) (fun _ _ => forgetAccess_forgotten concerned returned)
      fun entry mem sound enabled forgotten => forgotten.step sound enabled (unpublished entry mem)).1

/-! ## Runs of the broker on fixed events -/

def AllEnabled (b : Broker) : List Event → Prop
  | [] => True
  | e :: es => e.Enabled b ∧ AllEnabled (b.step e) es

def historyOf (b : Broker) : List Event → History → History
  | [], past => past
  | e :: es, past => historyOf (b.step e) es ((b, e) :: past)

theorem Reaches.events (reached : Reaches past b) (enabled : b.AllEnabled es) :
    Reaches (b.historyOf es past) (es.foldl Broker.step b) := by
  induction es generalizing past b with
  | nil => exact reached
  | cons e es ih => exact ih (.step reached enabled.1) enabled.2

theorem enabled_worker {id : Bytes} {step : WorkerStep}
    (follows : (b.workers[id]?).any (fun w => Event.WorkerStep.follows step w.stage) = true) :
    (Event.worker id step).Enabled b := by
  refine ⟨nofun, ?_⟩
  cases found : b.workers[id]? with
  | none => simp [found] at follows
  | some w => exact ⟨w, found, by simpa [found] using follows⟩

namespace Sample

/-- A Core that resolves every profile and keeps what is saved. -/
def core : Core where
  revision := some (1, 1)
  accessFingerprint := some [7]
  resolve vaultId profileId := some ⟨⟨vaultId, profileId, [1], [2], 22, [3]⟩, (1, 1)⟩
  loadsAccess := true
  savesAccess := true

def access (integrationId : Bytes) (approvalMode : ApprovalMode) : SavedAccess where
  integrationId := integrationId
  label := [4]
  targets := [⟨[5], [6], [1], [2], 22, [3]⟩]
  fingerprint := [7]
  expiresUnix := none
  approvalMode := approvalMode
  maxTimeoutMs := 600000
  limits := {}

/-- Two integrations with saved accesses, the first of them trusted. -/
def start : Broker := new core 0 0 [access [1] .trusted, access [2] .manual]

def restores : Event := .restoreAccess (1, 1) [([[11]], [21]), ([[12]], [22])]

def submits (owner target : Bytes) : Event :=
  .request owner (1, 1) (.runCommand ⟨.oneShot target, [108, 115], [8], none, none, none, []⟩) [31] true

/-- The first integration's command until its thread stands before the last check. -/
def connects : List Event :=
  [restores, submits [1] [11], .startRun [31] true .trusted true, .worker [31] (.records none),
    .worker [31] (.connects none)]

theorem connects_enabled : start.AllEnabled connects :=
  ⟨⟨fun _ => rfl, trivial⟩, ⟨nofun, rfl, rfl⟩, ⟨nofun, trivial⟩, enabled_worker rfl,
    enabled_worker rfl, trivial⟩

def connected : Broker := connects.foldl Broker.step start

/-- The broker is suspended, the thread checks, and a resumption queued before comes late. -/
def stops : List Event := [.suspend, .worker [31] .checks, .resumeIfCurrent 0]

theorem stops_enabled : connected.AllEnabled stops :=
  ⟨⟨fun _ => by decide, trivial⟩, enabled_worker (by decide), ⟨fun _ => by decide, trivial⟩, trivial⟩

end Sample

open Sample

/-- A command before its last check at a suspension is not sent; a stale resumption does nothing. -/
theorem revocation_is_barrier_stale_resume :
    (connected.workers[([31] : Bytes)]?).map Worker.stage = some .connected ∧
    (∃ later, connected.historyOf stops [] = later ++ [(connected, .suspend)] ∧
      ∀ entry ∈ later, ∀ x, entry.1.execOf entry.2 = some x → x.run ≠ [31]) ∧
    (stops.foldl Broker.step connected).grants = ∅ ∧
    (stops.foldl Broker.step connected).step (.resumeIfCurrent 0) =
      stops.foldl Broker.step connected := by
  have reached := ((Reaches.new Sample.core 0 0 _).events connects_enabled).events stops_enabled
  have barrier := @revocation_is_barrier (start.historyOf connects [])
    [(_, .resumeIfCurrent 0), (_, .worker [31] .checks)] connected _ .suspend reached
  have known := (some_get (x := connected.submitted[([31] : Bytes)]?) rfl).symm
  refine ⟨rfl, ⟨_, rfl, barrier.1 [1] [31] _ (.inr (.inl rfl)) known rfl⟩,
    (barrier.2.1 rfl fun entry mem => ?_).1,
    barrier.2.2.1 (.inr (.inl rfl)) (connected, .suspend) mem_cons_self⟩
  obtain rfl | last := mem_cons.mp mem
  · exact fun same => nomatch Event.resumeIfCurrent.inj same
  · obtain rfl := mem_singleton.mp last
    exact nofun

end UniSsh.Automation.Broker
