import UniSsh.Keys.RotationRun

/-!
# The routes of a rotation's steps

A step logs in to the hops in front of it with the candidate where they have verified and with the
old key elsewhere: no hop loses the old key under a step that uses it.
-/

namespace UniSsh.Keys

open RotationRun

open List

/-- A connection to one machine. -/
structure MultiExecTarget where
  host : String
  port : UInt16
  user : String
  auth : AuthMethod
  jumps : List JumpHost
  proxy : Option ProxyConfig
  publickeyOnly : Bool

section Connect

variable (plan : RotationPlan) (lowercase : String → String)

/-- Whether a hop is passed with the candidate. -/
def hopSwitched (verified : Finset String) (t : RotationTarget) (i : Nat) (j : JumpHost) : Bool :=
  (Routes.of plan).hopUsesKey j &&
    ((Routes.of plan).hopTargetId lowercase t.jumps t.proxy i).any fun hop => decide (hop ∈ verified)

/-- A hop with the candidate; a reference is written out, since it would resolve to the old key. -/
def candidateHop (candidate : AuthMethod) (j : JumpHost) : JumpHost :=
  match (Routes.of plan).refProfile j with
  | none => { j with auth := candidate }
  | some r => { host := r.host, port := r.port, user := r.user, auth := candidate, hopRef := none }

/-- How to reach a target for a step. -/
def stepConnect (verified : Finset String) (id : String) (step : RotationStep)
    (candidateId : String) : Option MultiExecTarget := do
  let t ← plan.target id
  let candidate := AuthMethod.agent plan.vaultId candidateId
  let old := AuthMethod.agent plan.vaultId plan.keyItemId
  some
    { host := t.host
      port := t.port
      user := t.user
      auth := match step with
        | .deploy | .confirm => old
        | .verify | .remove => candidate
      jumps := t.jumps.mapIdx fun i j =>
        if hopSwitched plan lowercase verified t i j then candidateHop plan candidate j else j
      proxy := t.proxy
      publickeyOnly := step ≠ .deploy }

/-- The connection of a step logs in to the hop target `h` with the key it rotates. -/
def PassesWithOld (verified : Finset String) (id : String) (step : RotationStep)
    (candidateId h : String) : Prop :=
  ∃ t connection i j, plan.target id = some t ∧
    stepConnect plan lowercase verified id step candidateId = some connection ∧
    (Routes.of plan).hopTargetId lowercase t.jumps t.proxy i = some h ∧
    connection.jumps[i]? = some j ∧ (Routes.of plan).hopUsesKey j = true

/-- A hop is logged in to with the candidate, written out. -/
def PassesWithCandidate (plan : RotationPlan) (candidateId : String) (j : JumpHost) : Prop :=
  j.auth = .agent plan.vaultId candidateId ∧ j.hopRef = none

end Connect

variable {plan : RotationPlan} {lowercase : String → String} {scope : RunScope}
  {verified : Finset String} {id h : String} {step : RotationStep} {candidateId : String}

variable {j : JumpHost} {t : RotationTarget}

theorem candidateHop_written (uses : (Routes.of plan).hopUsesKey j = true) :
    PassesWithCandidate plan candidateId
      (candidateHop plan (.agent plan.vaultId candidateId) j) := by
  unfold candidateHop
  cases resolved : (Routes.of plan).refProfile j with
  | some => exact ⟨rfl, rfl⟩
  | none =>
    -- A reference that does not resolve uses no key, so the hop is written out.
    refine ⟨rfl, ?_⟩
    unfold Routes.hopUsesKey at uses
    rw [resolved] at uses
    cases isRef : j.hopRef with
    | none => rfl
    | some => simp [isRef] at uses

/-- Every target of the plan can be connected to, over the hops of its route. -/
theorem stepConnect_jumps (candidateId : String) (isTarget : plan.target id = some t) :
    ∃ connection, stepConnect plan lowercase verified id step candidateId = some connection ∧
      connection.jumps = t.jumps.mapIdx fun i j =>
        if hopSwitched plan lowercase verified t i j then
          candidateHop plan (.agent plan.vaultId candidateId) j else j := by
  unfold stepConnect
  rw [isTarget]
  exact ⟨_, rfl, rfl⟩

/-- The old key is used on hops that use the key and have not verified. -/
theorem PassesWithOld.hop (fresh : candidateId ≠ plan.keyItemId)
    (passes : PassesWithOld plan lowercase verified id step candidateId h) :
    h ∉ verified ∧ ∃ t i j, plan.target id = some t ∧ t.jumps[i]? = some j ∧
      (Routes.of plan).hopUsesKey j = true ∧
      (Routes.of plan).hopTargetId lowercase t.jumps t.proxy i = some h := by
  obtain ⟨t, _, i, _, isTarget, connects, isHop, found, uses⟩ := passes
  obtain ⟨_, sameConnection, routes⟩ := stepConnect_jumps
    candidateId isTarget
  cases connects.symm.trans sameConnection
  rw [routes, getElem?_mapIdx] at found
  obtain ⟨j, saved, isJ⟩ := Option.map_eq_some_iff.mp found
  by_cases switched : hopSwitched plan lowercase verified t i j = true
  · rw [if_pos switched] at isJ
    -- a hop with the candidate does not use the rotated key
    obtain ⟨isCandidate, written⟩ := candidateHop_written (Bool.and_eq_true_iff.mp switched).1
    rw [← isJ, Routes.hopUsesKey, isCandidate, written] at uses
    simp [authUses, Routes.of, fresh] at uses
  · rw [if_neg switched] at isJ
    subst isJ
    refine ⟨fun proven => switched ?_, t, i, j, isTarget, saved, uses, isHop⟩
    simp [hopSwitched, uses, isHop, proven]

/-! ## What stays the same in a run -/

/-- The hops and the targets of a run are those it started with. -/
structure SameShape (run run' : RotationRun) : Prop where
  hops : run'.hops = run.hops
  ids : run'.states.map Prod.fst = run.states.map Prod.fst

theorem SameShape.act (run : RotationRun) (op : RunOp) : SameShape run (run.act op).1 := by
  have setShape : ∀ id state, SameShape run (run.set id state) := fun id state =>
    ⟨rfl, setState_ids id state run.states⟩
  cases op with
  | beginStep =>
    unfold RotationRun.act RotationRun.beginStep
    dsimp only
    split
    · exact setShape _ _
    · exact ⟨rfl, rfl⟩
  | recordStep id =>
    unfold RotationRun.act RotationRun.recordStep
    dsimp only
    split
    · exact ⟨rfl, rfl⟩
    · exact ⟨rfl, (setShape id _).ids⟩
  | retry =>
    unfold RotationRun.act RotationRun.retry
    dsimp only
    split
    · exact ⟨rfl, rfl⟩
    split
    · exact setShape _ _
    · exact ⟨rfl, rfl⟩
  | cancel =>
    refine ⟨rfl, ?_⟩
    unfold RotationRun.act RotationRun.cancel
    rw [map_map]
    rfl
  | extendTo => exact ⟨rfl, rfl⟩

theorem sameShape_of_run (plan : RotationPlan) (lowercase : String → String) (scope : RunScope)
    (ops : List RunOp) :
    SameShape (.start plan lowercase scope) (runOf plan lowercase scope ops).state := by
  have stays : ∀ (run : RotationRun) (log : List RunEvent) op,
      SameShape (.start plan lowercase scope) run →
      SameShape (.start plan lowercase scope) (run.act op).1 := by
    intro run _ op kept
    have next := SameShape.act run op
    exact ⟨next.hops.trans kept.hops, next.ids.trans kept.ids⟩
  exact Logged.invariant stays ⟨rfl, rfl⟩ ops

variable {ops : List RunOp}

theorem mem_hopsOf {state state' : TargetState}
    (inRun : (id, state) ∈ (runOf plan lowercase scope ops).state.states)
    (hopInRun : (h, state') ∈ (runOf plan lowercase scope ops).state.states)
    (isHop : h ∈ plan.keyHops lowercase id) :
    h ∈ (runOf plan lowercase scope ops).state.hopsOf id := by
  have shape := sameShape_of_run plan lowercase scope ops
  have atStart : ∀ {x s}, (x, s) ∈ (runOf plan lowercase scope ops).state.states →
      x ∈ (RotationRun.start plan lowercase scope).states.map Prod.fst := fun listed =>
    shape.ids ▸ mem_map.mpr ⟨_, listed, rfl⟩
  unfold RotationRun.hopsOf
  rw [shape.hops]
  have inStart := atStart inRun
  obtain ⟨hopEntry, hopAtStart, isH⟩ := mem_map.mp (atStart hopInRun)
  have listed : ∀ entries : List (String × TargetState), id ∈ entries.map Prod.fst →
      h ∈ (((entries.map fun entry => (entry.1, (plan.keyHops lowercase entry.1).filter fun h =>
        (RotationRun.start plan lowercase scope).states.any fun x => x.1 = h)).find?
          fun entry => entry.1 = id).map Prod.snd).getD [] := by
    intro entries among
    induction entries with
    | nil => cases among
    | cons first _ ih =>
      by_cases isId : first.1 = id
      · simp only [map_cons, isId, decide_true, find?_cons_of_pos, Option.map_some,
          Option.getD_some]
        refine mem_filter.mpr ⟨isHop, any_eq_true.mpr ⟨hopEntry, hopAtStart, ?_⟩⟩
        exact decide_eq_true isH
      · rw [map_cons, find?_cons_of_neg (by simpa using isId)]
        refine ih ((mem_cons.mp among).resolve_left fun same => isId same.symm)
  exact listed _ inStart

theorem target_isSome {state : TargetState}
    (inRun : (h, state) ∈ (runOf plan lowercase scope ops).state.states) :
    (plan.target h).isSome = true := by
  have atStart : h ∈ (RotationRun.start plan lowercase scope).states.map Prod.fst :=
    (sameShape_of_run plan lowercase scope ops).ids ▸ mem_map.mpr ⟨_, inRun, rfl⟩
  obtain ⟨_, listed, isH⟩ := mem_map.mp atStart
  obtain ⟨t, taken, rfl⟩ := mem_map.mp listed
  refine find?_isSome.mpr ⟨t, (mem_filter.mp taken).1, ?_⟩
  simpa using isH

/-! ## A step in flight holds its hops -/

/-- Since a log, a step of a target is in flight and no old key went from a hop of it, until the
step lands. -/
def HoldsHop (t : String) (step : RotationStep) (h : String) (base : List RunEvent)
    (run : RotationRun) (log : List RunEvent) : Prop :=
  (run.states.map Prod.fst).Nodup ∧ h ∈ run.hopsOf t ∧ ∃ late, log = late ++ base ∧
    ((∀ passed, .landed t step passed ∉ late) →
      run.state t = some (.running step) ∧ .began h .remove ∉ late)

/-- What an operation has to show: it leaves the step in flight, or lands it. -/
theorem HoldsHop.act {t : String} (run : RotationRun) (log : List RunEvent) (op : RunOp)
    (holds : HoldsHop t step h base run log) :
    HoldsHop t step h base (run.act op).1 ((run.act op).2.reverse ++ log) := by
  obtain ⟨distinct, isHop, late, rfl, flying⟩ := holds
  have shape := SameShape.act run op
  refine ⟨shape.ids ▸ distinct, ?_, (run.act op).2.reverse ++ late, (append_assoc ..).symm, ?_⟩
  · unfold RotationRun.hopsOf
    rw [shape.hops]
    exact isHop
  intro open'
  obtain ⟨inFlight, none⟩ := flying fun passed landed => open' passed (mem_append_right _ landed)
  suffices kept : (run.act op).1.state t = some (.running step) ∧
      .began h .remove ∉ (run.act op).2 from
    ⟨kept.1, fun began => (mem_append.mp began).elim (fun new => kept.2 (mem_reverse.mp new)) none⟩
  cases op with
  | beginStep id =>
    rcases began : run.beginStep id with ⟨_, _ | next⟩
    · cases beginStep_eq_none began
      simp only [RotationRun.act, began]
      exact ⟨inFlight, not_mem_nil⟩
    · obtain ⟨rfl, waiting, -, may⟩ := beginStep_eq_some began
      simp only [RotationRun.act, began]
      have other : t ≠ id := by
        rintro rfl
        cases inFlight.symm.trans (state_of_mem distinct waiting)
      refine ⟨(state_set_other other _).trans inFlight, fun removal => ?_⟩
      -- The old key of a hop is not taken while a step goes through it.
      cases mem_singleton.mp removal
      have routed : run.routedThrough h = true :=
        any_eq_true.mpr ⟨_, mem_of_state inFlight, by
          simp [RotationRun.isRunning, isHop]⟩
      simp [RotationRun.mayStart, routed] at may
  | recordStep id landing outcome =>
    by_cases lands : run.state id = some (.running landing)
    · have other : t ≠ id := by
        rintro rfl
        cases lands.symm.trans inFlight
        refine open' outcome.isOk (mem_append_left _ ?_)
        simp [RotationRun.act, lands]
      simp only [RotationRun.act, RotationRun.recordStep, lands, ne_eq, not_true, if_false, if_true]
      exact ⟨(state_set_other other _).trans inFlight, by simp⟩
    · simp only [RotationRun.act, RotationRun.recordStep, lands, ne_eq, not_false_eq_true, if_true,
        if_false]
      exact ⟨inFlight, not_mem_nil⟩
  | retry id =>
    refine ⟨?_, not_mem_nil⟩
    unfold RotationRun.act RotationRun.retry
    dsimp only
    split
    · exact inFlight
    split
    · next failed =>
      have other : t ≠ id := by
        rintro rfl
        cases inFlight.symm.trans failed
      exact (state_set_other other _).trans inFlight
    · exact inFlight
  | cancel =>
    refine ⟨?_, by simp [RotationRun.act]⟩
    refine state_of_mem (shape.ids ▸ distinct) ?_
    exact mem_map.mpr ⟨_, mem_of_state inFlight, rfl⟩
  | extendTo => exact ⟨inFlight, not_mem_nil⟩

/-- A run after a step began: it starts from the state and the log of that step. -/
theorem begun (before after : List RunOp)
    (began : ((runOf plan lowercase scope before).state.beginStep id).2 = some step) :
    runOf plan lowercase scope (before ++ .beginStep id :: after) = Logged.run RotationRun.act
        { state := (runOf plan lowercase scope before).state.set id (.running step)
          log := .began id step :: (runOf plan lowercase scope before).log } after := by
  have begins : (runOf plan lowercase scope before).state.beginStep id =
      ((runOf plan lowercase scope before).state.set id (.running step), some step) := by
    have isRun : (runOf plan lowercase scope before).state.beginStep id = (_, some step) :=
      Prod.ext rfl began
    rw [isRun, (beginStep_eq_some isRun).1]
  have first : Logged.act RotationRun.act (runOf plan lowercase scope before) (.beginStep id) =
      { state := (runOf plan lowercase scope before).state.set id (.running step)
        log := .began id step :: (runOf plan lowercase scope before).log } := by
    simp [Logged.act, RotationRun.act, begins]
  rw [← first]
  exact Logged.run_append before (.beginStep id :: after)

variable {before after : List RunOp}

/-- A step that began holds the hops in front of it that are targets of the run. -/
theorem HoldsHop.of_begun (early : scope.first = .deploy ∨ scope.first = .verify)
    (began : ((runOf plan lowercase scope before).state.beginStep id).2 = some step)
    (inRun : h ∈ (runOf plan lowercase scope before).state.states.map Prod.fst)
    (isHop : h ∈ plan.keyHops lowercase id) :
    HoldsHop id step h (.began id step :: (runOf plan lowercase scope before).log)
      (runOf plan lowercase scope (before ++ .beginStep id :: after)).state
      (runOf plan lowercase scope (before ++ .beginStep id :: after)).log := by
  have inv : Inv (runOf plan lowercase scope before).state (runOf plan lowercase scope before).log :=
    Inv.of_run early before
  have distinct := inv.distinct
  have waiting := (beginStep_eq_some (Prod.ext rfl began)).2.1
  obtain ⟨⟨_, _⟩, hopInRun, rfl⟩ := mem_map.mp inRun
  rw [begun before after began]
  refine Logged.invariant HoldsHop.act ⟨?_, ?_, [], rfl, fun _ => ⟨?_, not_mem_nil⟩⟩ after
  · rw [RotationRun.set, setState_ids]
    exact distinct
  · exact mem_hopsOf waiting hopInRun isHop
  · rw [state_set_self, state_of_mem distinct waiting]
    rfl

/-- A hop that had not verified when a step behind it began keeps the old key until the step
lands. -/
theorem unverified_hop_keeps_key (early : scope.first = .deploy ∨ scope.first = .verify)
    (began : ((runOf plan lowercase scope before).state.beginStep id).2 = some step)
    (split : (runOf plan lowercase scope (before ++ .beginStep id :: after)).log =
      late ++ .began id step :: (runOf plan lowercase scope before).log)
    (flying : ∀ passed, .landed id step passed ∉ late)
    (inRun : h ∈ (runOf plan lowercase scope before).state.states.map Prod.fst)
    (isHop : h ∈ plan.keyHops lowercase id)
    (unproven : h ∉ (runOf plan lowercase scope before).state.verified) :
    .began h .remove ∉ (runOf plan lowercase scope (before ++ .beginStep id :: after)).log := by
  have inv : Inv (runOf plan lowercase scope before).state (runOf plan lowercase scope before).log :=
    Inv.of_run early before
  obtain ⟨-, -, _, split', holds⟩ := HoldsHop.of_begun early began inRun isHop
  cases append_cancel_right (split.symm.trans split')
  have may := (beginStep_eq_some (Prod.ext rfl began)).2.2.2
  rw [split]
  intro removal
  rcases mem_append.mp removal with since | removal
  · exact (holds flying).2 since
  rcases mem_cons.mp removal with itself | earlier
  · -- The target is not its own unproven hop: its removal would wait for its verify.
    cases itself
    simp [RotationRun.mayStart, unproven] at may
  · obtain ⟨_, _, isLog⟩ := append_of_mem earlier
    have lawful := inv.lawful
    rw [isLog] at lawful
    have proven := (lawful.of_append _ _ rfl).2 rfl
    refine unproven ((inv.verified h).mpr ?_)
    rw [isLog]
    exact mem_append_right _ (mem_cons_of_mem _ proven)

/-- A step logs in to each hop with a candidate the hop proved, or with an old key no removal began
on. -/
theorem steps_keep_their_routes (plan : RotationPlan) (lowercase : String → String)
    (scope : RunScope) (early : scope.first = .deploy ∨ scope.first = .verify)
    (candidateId : String) (fresh : candidateId ≠ plan.keyItemId) (before after : List RunOp)
    (id : String) (step : RotationStep)
    (began : ((runOf plan lowercase scope before).state.beginStep id).2 = some step) :
    let atStart := runOf plan lowercase scope before
    let now := runOf plan lowercase scope (before ++ .beginStep id :: after)
    ∃ late, now.log = late ++ .began id step :: atStart.log ∧
      ((∀ passed, .landed id step passed ∉ late) → (∀ h ∈ now.state.states.map Prod.fst,
          PassesWithOld plan lowercase atStart.state.verified id step candidateId h →
            .began h .remove ∉ now.log) ∧
        ∃ t connection, plan.target id = some t ∧
          stepConnect plan lowercase atStart.state.verified id step candidateId = some connection ∧
          ∀ i j h, t.jumps[i]? = some j → (Routes.of plan).hopUsesKey j = true →
            (Routes.of plan).hopTargetId lowercase t.jumps t.proxy i = some h →
            h ∈ now.state.states.map Prod.fst → ∃ j', connection.jumps[i]? = some j' ∧
              (PassesWithCandidate plan candidateId j' ∧ .landed h .verify true ∈ atStart.log ∨
                j' = j ∧ .began h .remove ∉ now.log)) := by
  intro atStart now
  have inv : Inv atStart.state atStart.log := Inv.of_run early before
  have sameIds : now.state.states.map Prod.fst = atStart.state.states.map Prod.fst :=
    (sameShape_of_run plan lowercase scope _).ids.trans (sameShape_of_run plan lowercase scope _).ids.symm
  obtain ⟨late, split⟩ : ∃ late, now.log = late ++ .began id step :: atStart.log := by
    have isNow := begun before after began
    obtain ⟨late, split⟩ := Logged.log_suffix _ after
    exact ⟨late, (congrArg Logged.log isNow).trans split.symm⟩
  refine ⟨late, split, fun flying => ?_⟩
  have planned : ∀ {x}, x ∈ atStart.state.states.map Prod.fst → (plan.target x).isSome = true := by
    intro x inRun
    obtain ⟨⟨_, _⟩, listed, rfl⟩ := mem_map.mp inRun
    exact target_isSome listed
  have keeps : ∀ {t i j h}, plan.target id = some t → t.jumps[i]? = some j →
      (Routes.of plan).hopUsesKey j = true →
      (Routes.of plan).hopTargetId lowercase t.jumps t.proxy i = some h →
      h ∈ now.state.states.map Prod.fst → h ∉ atStart.state.verified → .began h .remove ∉ now.log := by
    intro t i j h isTarget saved uses isHop inRun unproven
    rw [sameIds] at inRun
    refine unverified_hop_keeps_key early began split flying inRun ?_ unproven
    unfold RotationPlan.keyHops
    rw [isTarget]
    refine mem_filter.mpr ⟨mem_filterMap.mpr ⟨(j, i), ?_, isHop⟩, planned inRun⟩
    exact mem_filter.mpr ⟨mk_mem_zipIdx_iff_getElem?.mpr saved, uses⟩
  constructor
  · intro h inRun passes
    obtain ⟨unproven, t, i, j, isTarget, saved, uses, isHop⟩ := passes.hop fresh
    exact keeps isTarget saved uses isHop inRun unproven
  · have waiting := (beginStep_eq_some (Prod.ext rfl began)).2.1
    obtain ⟨t, isTarget⟩ := Option.isSome_iff_exists.mp (target_isSome waiting)
    obtain ⟨connection, connects, routes⟩ := stepConnect_jumps candidateId isTarget
    refine ⟨t, connection, isTarget, connects, fun i j h saved uses isHop inRun => ?_⟩
    rw [routes, getElem?_mapIdx, saved]
    refine ⟨_, rfl, ?_⟩
    dsimp only
    by_cases proven : h ∈ atStart.state.verified
    · have switched : hopSwitched plan lowercase atStart.state.verified t i j = true := by
        simp [hopSwitched, uses, isHop, proven]
      rw [if_pos switched]
      exact .inl ⟨candidateHop_written uses, (inv.verified h).mp proven⟩
    · have kept : hopSwitched plan lowercase atStart.state.verified t i j = false := by
        simp [hopSwitched, isHop, proven]
      rw [kept]
      exact .inr ⟨rfl, keeps isTarget saved uses isHop inRun proven⟩

namespace Sample

/-- The bastion does not answer its deploy, so the host behind it goes on with the old key. -/
def bastionSilent : List RunOp :=
  [.beginStep "root@b:22", .recordStep "root@b:22" .deploy (.error .timedOut)]

/-- The bastion is tried again and proves the candidate while that step lasts. -/
def bastionRetried : List RunOp := .retry "root@b:22" :: bastionVerified ++ [.beginStep "root@b:22"]

theorem web_passes_with_old : PassesWithOld webPlan lower
    (runOf webPlan lower fullScope bastionSilent).state.verified "root@w:22 via root@b:22" .deploy
    "key-next" "root@b:22" := by
  have planned : ∃ t, webPlan.target "root@w:22 via root@b:22" = some t ∧ t.jumps = [bastion] ∧
      t.proxy = none := ⟨_, rfl, rfl, rfl⟩
  obtain ⟨t, isTarget, jumps, proxy⟩ := planned
  obtain ⟨connection, connects, routes⟩ := stepConnect_jumps "key-next" isTarget
  refine ⟨t, connection, 0, bastion, isTarget, connects, ?_, ?_, rfl⟩
  · rw [jumps, proxy]
    rfl
  · have unswitched : hopSwitched webPlan lower
        (runOf webPlan lower fullScope bastionSilent).state.verified t 0 bastion = false := by
      unfold hopSwitched
      rw [jumps, proxy]
      rfl
    simp [routes, jumps, unswitched]

end Sample

open Sample

/-- A host behind a bastion that does not answer. -/
theorem steps_keep_their_routes_web :
    .began "root@b:22" .remove ∉ (runOf webPlan lower fullScope
      (bastionSilent ++ .beginStep "root@w:22 via root@b:22" :: bastionRetried)).log := by
  obtain ⟨_, split, holds⟩ := steps_keep_their_routes webPlan lower fullScope
    (.inl rfl) "key-next" (by decide) bastionSilent bastionRetried
    "root@w:22 via root@b:22" .deploy rfl
  have flying : ∀ passed, .landed "root@w:22 via root@b:22" .deploy passed ∉
      (runOf webPlan lower fullScope
        (bastionSilent ++ .beginStep "root@w:22 via root@b:22" :: bastionRetried)).log := by
    decide
  refine (holds fun passed landed => flying passed ?_).1 _ (by decide) web_passes_with_old
  rw [split]
  exact mem_append_left _ landed

end UniSsh.Keys
