import UniSsh.Keys.HopRoutes

/-!
# Groups of hosts

A group is expanded depth first, each group entered once and none below a depth limit. A group
first met below the limit is not entered later either (`Family.flatten_lists`).
-/

namespace UniSsh.Groups

open List Keys

/-- What became of a member. -/
inductive ResolveStatus where
  | ok
  | dangling
  | promptPassword
  | cycleSkipped
  | personal
  deriving DecidableEq

/-- The groups and hosts of a vault, and the group that is expanded. -/
structure Family where
  groups : String → Option (List String)
  profiles : String → Bool
  root : String
  maxDepth : Nat

/-- The state of an expansion; the hosts seen are those of the result. -/
structure Flattener where
  result : List String
  visitedGroups : List String
  issues : List (String × ResolveStatus)

namespace Family

variable (F : Family)

/-- One member of a group that is walked; a group not met before is entered. -/
def visit (enter : String → Flattener → Flattener) (f : Flattener) (m : String) : Flattener :=
  if (F.groups m).isSome then
    if m ∈ f.visitedGroups then { f with issues := f.issues ++ [(m, .cycleSkipped)] }
    else enter m { f with visitedGroups := m :: f.visitedGroups }
  else if F.profiles m then
    if m ∈ f.result then f else { f with result := f.result ++ [m] }
  else { f with issues := f.issues ++ [(m, .dangling)] }

/-- Walks a group, with as many levels left as the limit allows at its depth. -/
def walk : Nat → String → Flattener → Flattener
  | 0, gid, f => { f with issues := f.issues ++ [(gid, .cycleSkipped)] }
  | left + 1, gid, f =>
    match F.groups gid with
    | none => f
    | some members => members.foldl (F.visit (walk left)) f

def flattenGroupMembers : Flattener := F.walk (F.maxDepth + 1) F.root ⟨[], [F.root], []⟩

end Family

/-! ## Plans -/

structure GroupTargetPlan where
  memberId : String
  host : String
  port : UInt16
  user : String
  status : ResolveStatus

def profileAuthToMethod (vaultId : String) : ProfileAuth → AuthMethod
  | .key keyItemId => .agent vaultId keyItemId
  | .vaultPassword passwordItemId => .vaultPassword vaultId passwordItemId
  | .systemAgent publicKey => .systemAgent publicKey
  | .promptPassword | .personal => .password ""

def profileToTarget (vaultId : String) (p : ConnectionProfile) : MultiExecTarget :=
  ⟨p.host, p.port, p.user, profileAuthToMethod vaultId p.auth, p.jumps, p.proxy, false⟩

section Plan

variable (vaultId : String) (personalAuth : ConnectionProfile → Option (String × AuthMethod))

/-- The entry of a host and, unless its login waits for the user, its target. -/
def resolveMember (pid : String) (p : ConnectionProfile) :
    GroupTargetPlan × Option MultiExecTarget :=
  match p.auth with
  | .promptPassword => (⟨pid, p.host, p.port, p.user, .promptPassword⟩, none)
  | .personal =>
    match personalAuth p with
    | some (user, auth) =>
      (⟨pid, p.host, p.port, user, .ok⟩, some ⟨p.host, p.port, user, auth, p.jumps, p.proxy, false⟩)
    | none => (⟨pid, p.host, p.port, p.user, .personal⟩, none)
  | _ => (⟨pid, p.host, p.port, p.user, .ok⟩, some (profileToTarget vaultId p))

/-- The targets and the plan of a group. -/
def resolveGroup (groups : String → Option (List String))
    (profiles : String → Option ConnectionProfile) (root : String) (maxDepth : Nat) :
    Option (List MultiExecTarget × List GroupTargetPlan) := do
  let _ ← groups root
  let f := Family.flattenGroupMembers ⟨groups, fun id => (profiles id).isSome, root, maxDepth⟩
  let entries ← f.result.mapM fun pid => (profiles pid).map (resolveMember vaultId personalAuth pid)
  return (entries.filterMap Prod.snd,
    entries.map Prod.fst ++ f.issues.map fun issue => ⟨issue.1, "", 0, "", issue.2⟩)

/-- Hosts have one entry each, in order, and a target where it is `ok`. -/
theorem entries_of_hosts {profiles : String → Option ConnectionProfile} {ids : List String}
    (known : ∀ id ∈ ids, (profiles id).isSome) :
    ∃ entries, ids.mapM (fun pid => (profiles pid).map (resolveMember vaultId personalAuth pid)) =
        some entries ∧ entries.map (fun e => e.1.memberId) = ids ∧
      (entries.filterMap Prod.snd).map (fun t => (t.host, t.port, t.user)) =
        ((entries.map Prod.fst).filter fun e => e.status = .ok).map fun e =>
          (e.host, e.port, e.user) := by
  induction ids with
  | nil => exact ⟨[], rfl, rfl, rfl⟩
  | cons pid rest ih =>
    obtain ⟨isKnown, restKnown⟩ := forall_mem_cons.mp known
    obtain ⟨p, found⟩ := Option.isSome_iff_exists.mp isKnown
    obtain ⟨entries, ran, listed, logins⟩ := ih restKnown
    refine ⟨resolveMember vaultId personalAuth pid p :: entries, by simp [mapM_cons, found, ran], ?_⟩
    unfold resolveMember
    split
    · exact ⟨congrArg _ listed, logins⟩
    · split
      · exact ⟨congrArg _ listed, congrArg _ logins⟩
      · exact ⟨congrArg _ listed, logins⟩
    · exact ⟨congrArg _ listed, congrArg _ logins⟩

end Plan

/-! ## What a group stands for -/

namespace Family

section Spec

variable (F : Family)

def Member (g m : String) : Prop := ∃ members, F.groups g = some members ∧ m ∈ members

/-- A chain of nestings from the root to a group, with the groups above it, nearest first. -/
inductive Chain : List String → String → Prop
  | root : Chain [] F.root
  | nested {above g h} (chain : Chain above g) (member : F.Member g h)
      (group : (F.groups h).isSome) : Chain (g :: above) h

/-- A member of the root or of a group within the limit below it. -/
def StandsFor (m : String) : Prop :=
  ∃ above g, F.Chain above g ∧ above.length ≤ F.maxDepth ∧ F.Member g m

/-- Hosts have other ids than groups. -/
def Apart : Prop := ∀ id, (F.groups id).isSome → F.profiles id = false

/-- A group not met before is met at this depth, and searched in turn. -/
def meet (deeper : String → List (String × Nat) → List (String × Nat)) (depth : Nat)
    (seen : List (String × Nat)) (m : String) : List (String × Nat) :=
  if (F.groups m).isSome ∧ m ∉ seen.map Prod.fst then deeper m ((m, depth) :: seen) else seen

/-- Depth-first search: the groups met, each with the depth of its first meeting. -/
def search : Nat → String → List (String × Nat) → List (String × Nat)
  | 0, _, seen => seen
  | left + 1, g, seen =>
    ((F.groups g).getD []).foldl (F.meet (search left) (F.maxDepth + 1 - left)) seen

/-- The groups met from the root on, at most one level below the limit. -/
def meetings : List (String × Nat) := F.search (F.maxDepth + 1) F.root [(F.root, 0)]

/-- A member of a group that was first met within the limit. -/
def Listed (seen : List (String × Nat)) (m : String) : Prop :=
  ∃ g n, (g, n) ∈ seen ∧ n ≤ F.maxDepth ∧ F.Member g m

/-- What a group within the limit has besides groups, a group first met within the limit has. -/
def Reached : Prop := ∀ m, F.StandsFor m → F.groups m = none → F.Listed F.meetings m

/-- A member has come out as a walk leaves it. -/
structure Placed (f : Flattener) (m : String) : Prop where
  group : (F.groups m).isSome → m ∈ f.visitedGroups
  profile : F.groups m = none → F.profiles m → m ∈ f.result
  dangling : F.groups m = none → F.profiles m = false → (m, .dangling) ∈ f.issues

/-- What holds at every moment of a walk, with the groups met by then. -/
structure Sound (seen : List (String × Nat)) (f : Flattener) : Prop where
  met : f.visitedGroups = seen.map Prod.fst
  chains : ∀ g n, (g, n) ∈ seen → ∃ above, F.Chain above g ∧ above.length = n
  once : f.result.Nodup
  hosts : ∀ m ∈ f.result, F.profiles m ∧ F.Listed seen m
  issues : ∀ issue ∈ f.issues, issue.2 ≠ .ok ∧ F.profiles issue.1 = false ∧
    (issue.2 = .dangling → F.Listed seen issue.1)

/-- A walk goes on; every group it meets within the limit has its members placed. -/
structure Onward (seen : List (String × Nat)) (f : Flattener) (seen' : List (String × Nat))
    (f' : Flattener) : Prop where
  met : seen ⊆ seen'
  visited : f.visitedGroups ⊆ f'.visitedGroups
  result : f.result ⊆ f'.result
  issues : f.issues ⊆ f'.issues
  entered : ∀ g n, (g, n) ∈ seen' → (g, n) ∈ seen ∨
    (n ≤ F.maxDepth → ∀ m, F.Member g m → F.Placed f' m)
  sound : F.Sound seen f → F.Sound seen' f'

end Spec

variable {F : Family} {f f' f'' : Flattener} {seen seen' seen'' : List (String × Nat)} {m : String}

theorem Listed.mono (listed : F.Listed seen m) (more : seen ⊆ seen') : F.Listed seen' m := by
  obtain ⟨g, n, met, within, member⟩ := listed
  exact ⟨g, n, more met, within, member⟩

theorem Placed.onward (placed : F.Placed f m) (onward : F.Onward seen f seen' f') :
    F.Placed f' m :=
  ⟨fun group => onward.visited (placed.group group),
    fun none host => onward.result (placed.profile none host),
    fun none other => onward.issues (placed.dangling none other)⟩

theorem Onward.refl (seen : List (String × Nat)) (f : Flattener) : F.Onward seen f seen f :=
  ⟨Subset.refl _, Subset.refl _, Subset.refl _, Subset.refl _, fun _ _ => .inl, id⟩

theorem Onward.trans (first : F.Onward seen f seen' f') (second : F.Onward seen' f' seen'' f'') :
    F.Onward seen f seen'' f'' where
  met := Subset.trans first.met second.met
  visited := Subset.trans first.visited second.visited
  result := Subset.trans first.result second.result
  issues := Subset.trans first.issues second.issues
  entered g n met := by
    rcases second.entered g n met with before | placed
    · refine (first.entered g n before).imp_right fun placed within m member => ?_
      exact (placed within m member).onward second
    · exact .inr placed
  sound holds := second.sound (first.sound holds)

/-- A member that is no host is noted. -/
theorem Onward.issue {status : ResolveStatus} (notOk : status ≠ .ok)
    (other : F.profiles m = false) (listed : status = .dangling → F.Listed seen m) :
    F.Onward seen f seen { f with issues := f.issues ++ [(m, status)] } := by
  refine ⟨Subset.refl _, Subset.refl _, Subset.refl _, subset_append_left _ _, fun _ _ => .inl,
    fun sound => ⟨sound.met, sound.chains, sound.once, sound.hosts,
      forall_mem_append.mpr ⟨sound.issues, ?_⟩⟩⟩
  exact forall_mem_singleton.mpr ⟨notOk, other, listed⟩

/-- A host is added. -/
theorem Onward.host (host : F.profiles m) (new : m ∉ f.result) (listed : F.Listed seen m) :
    F.Onward seen f seen { f with result := f.result ++ [m] } := by
  refine ⟨Subset.refl _, Subset.refl _, subset_append_left _ _, Subset.refl _, fun _ _ => .inl,
    fun sound => ⟨sound.met, sound.chains, nodup_append_comm.mp (nodup_cons.mpr ⟨new, sound.once⟩),
      forall_mem_append.mpr ⟨sound.hosts, ?_⟩, sound.issues⟩⟩
  exact forall_mem_singleton.mpr ⟨host, listed⟩

/-- A group is met for the first time, at the end of a chain. -/
theorem Sound.meet (sound : F.Sound seen f) (chain : F.Chain above m) :
    F.Sound ((m, above.length) :: seen) { f with visitedGroups := m :: f.visitedGroups } where
  met := congrArg _ sound.met
  chains g n met := by
    rcases mem_cons.mp met with same | met
    · cases same
      exact ⟨above, chain, rfl⟩
    · exact sound.chains g n met
  once := sound.once
  hosts m inside := (sound.hosts m inside).imp_right fun listed => listed.mono (subset_cons_self _ _)
  issues issue inside := by
    obtain ⟨notOk, other, dangling⟩ := sound.issues issue inside
    exact ⟨notOk, other, fun is => (dangling is).mono (subset_cons_self _ _)⟩

/-- A member, where entering a group first met within the limit places its members. -/
theorem visit_onward {enter : String → Flattener → Flattener}
    {deeper : String → List (String × Nat) → List (String × Nat)} (apart : F.Apart)
    (listed : F.Listed seen m) (chain : (F.groups m).isSome → F.Chain above m)
    (enters : (F.groups m).isSome →
      let met := (m, above.length) :: seen
      let start : Flattener := { f with visitedGroups := m :: f.visitedGroups }
      F.Sound met start → F.Onward met start (deeper m met) (enter m start) ∧
        (above.length ≤ F.maxDepth → ∀ n, F.Member m n → F.Placed (enter m start) n))
    (sound : F.Sound seen f) :
    F.Onward seen f (F.meet deeper above.length seen m) (F.visit enter f m) ∧
      F.Placed (F.visit enter f m) m := by
  unfold visit meet
  by_cases group : (F.groups m).isSome
  · have notNone {P : Prop} (none : F.groups m = none) : P := by simp [none] at group
    rw [if_pos group, ← sound.met]
    by_cases visited : m ∈ f.visitedGroups
    · rw [if_pos visited, if_neg fun fresh => fresh.2 visited]
      exact ⟨.issue nofun (apart m group) nofun, fun _ => visited, notNone, notNone⟩
    · rw [if_neg visited, if_pos ⟨group, visited⟩]
      obtain ⟨onward, placed⟩ := enters group (sound.meet (chain group))
      refine ⟨⟨fun _ met => onward.met (mem_cons_of_mem _ met),
        fun _ visited => onward.visited (mem_cons_of_mem _ visited), onward.result, onward.issues,
        fun g n met => ?_, fun sound => onward.sound (sound.meet (chain group))⟩,
        fun _ => onward.visited mem_cons_self, notNone, notNone⟩
      rcases onward.entered g n met with before | there
      · rcases mem_cons.mp before with same | before
        · cases same
          exact .inr placed
        · exact .inl before
      · exact .inr there
  · have noGroup {P : Prop} (isGroup : (F.groups m).isSome) : P := absurd isGroup group
    rw [if_neg group, if_neg fun both => group both.1]
    by_cases host : F.profiles m
    · have isHost {P : Prop} (other : F.profiles m = false) : P := by simp [other] at host
      rw [if_pos host]
      by_cases inside : m ∈ f.result
      · rw [if_pos inside]
        exact ⟨.refl seen f, noGroup, fun _ _ => inside, fun _ => isHost⟩
      · rw [if_neg inside]
        exact ⟨.host host inside listed, noGroup,
          fun _ _ => mem_append_right _ (mem_singleton_self m), fun _ => isHost⟩
    · rw [if_neg host]
      exact ⟨.issue nofun (Bool.eq_false_iff.mpr host) fun _ => listed, noGroup,
        fun _ isHost => absurd isHost host, fun _ _ => mem_append_right _ (mem_singleton_self _)⟩

/-- The walk of a group that was met at its depth, along with the search of it. -/
theorem walk_onward (apart : F.Apart) (chain : F.Chain above g) (group : (F.groups g).isSome)
    (levels : above.length + left = F.maxDepth + 1) (met : (g, above.length) ∈ seen)
    (sound : F.Sound seen f) :
    F.Onward seen f (F.search left g seen) (F.walk left g f) ∧
      (above.length ≤ F.maxDepth → ∀ n, F.Member g n → F.Placed (F.walk left g f) n) := by
  induction left generalizing above g seen f with
  | zero => exact ⟨.issue nofun (apart g group) nofun, fun within => by omega⟩
  | succ left ih =>
    obtain ⟨members, found⟩ := Option.isSome_iff_exists.mp group
    have depth : F.maxDepth + 1 - left = (g :: above).length := by
      rw [length_cons]
      omega
    have fold (ms : List String) (seen f) (inside : ms ⊆ members) (met : (g, above.length) ∈ seen)
        (sound : F.Sound seen f) :
        F.Onward seen f (ms.foldl (F.meet (F.search left) (g :: above).length) seen)
            (ms.foldl (F.visit (F.walk left)) f) ∧
          ∀ n ∈ ms, F.Placed (ms.foldl (F.visit (F.walk left)) f) n := by
      induction ms generalizing seen f with
      | nil => exact ⟨.refl seen f, nofun⟩
      | cons m rest ihRest =>
        obtain ⟨isMember, restInside⟩ := cons_subset.mp inside
        have member : F.Member g m := ⟨members, found, isMember⟩
        obtain ⟨here, placed⟩ := visit_onward apart ⟨g, above.length, met, by omega, member⟩
          (chain.nested member)
          (fun isGroup start => ih (chain.nested member isGroup) isGroup
            (by rw [length_cons]; omega) mem_cons_self start) sound
        obtain ⟨later, placedRest⟩ := ihRest _ _ restInside (here.met met) (here.sound sound)
        exact ⟨here.trans later, forall_mem_cons.mpr ⟨placed.onward later, placedRest⟩⟩
    obtain ⟨onward, placed⟩ := fold members seen f (Subset.refl _) met sound
    simp only [search, walk, found, Option.getD_some, depth]
    refine ⟨onward, ?_⟩
    rintro - n ⟨_, found', inside⟩
    cases found.symm.trans found'
    exact placed n inside

/-- What the expansion lists are the members of the groups first met within the limit. -/
theorem flatten_lists (apart : F.Apart) (group : (F.groups F.root).isSome) :
    F.Sound F.meetings F.flattenGroupMembers ∧ (F.root, 0) ∈ F.meetings ∧
      ∀ m, F.Listed F.meetings m → F.Placed F.flattenGroupMembers m := by
  have start : F.Sound [(F.root, 0)] ⟨[], [F.root], []⟩ := by
    refine ⟨rfl, fun g n met => ?_, nodup_nil, nofun, nofun⟩
    cases mem_singleton.mp met
    exact ⟨[], .root, rfl⟩
  obtain ⟨onward, atRoot⟩ := walk_onward apart .root group (Nat.zero_add _)
    (mem_singleton_self _) start
  refine ⟨onward.sound start, onward.met (mem_singleton_self _), ?_⟩
  rintro m ⟨g, n, met, within, member⟩
  rcases onward.entered g n met with isRoot | placed
  · cases mem_singleton.mp isRoot
    exact atRoot within m member
  · exact placed within m member

theorem Sound.standsFor (sound : F.Sound seen f) (listed : F.Listed seen m) : F.StandsFor m := by
  obtain ⟨g, n, met, within, member⟩ := listed
  obtain ⟨above, chain, rfl⟩ := sound.chains g n met
  exact ⟨above, g, chain, within, member⟩

/-- The listing is complete where no group within the limit is first met below it. -/
theorem reached_of_within (apart : F.Apart) (group : (F.groups F.root).isSome)
    (within : ∀ above g n, F.Chain above g → above.length ≤ F.maxDepth → (g, n) ∈ F.meetings →
      n ≤ F.maxDepth) : F.Reached := by
  obtain ⟨sound, atRoot, placed⟩ := flatten_lists apart group
  rintro m ⟨above, g, chain, short, member⟩ -
  suffices met : ∃ n, (g, n) ∈ F.meetings by
    obtain ⟨n, met⟩ := met
    exact ⟨g, n, met, within above g n chain short met, member⟩
  -- along the chain, each group was entered, so that the next one was met
  clear member
  induction chain with
  | root => exact ⟨0, atRoot⟩
  | nested chain inside isGroup ih =>
    obtain ⟨n, met⟩ := ih (Nat.le_of_succ_le short)
    have isWithin := within _ _ n chain (Nat.le_of_succ_le short) met
    have visited := (placed _ ⟨_, n, met, isWithin, inside⟩).group isGroup
    rw [sound.met] at visited
    obtain ⟨⟨_, n⟩, met, rfl⟩ := mem_map.mp visited
    exact ⟨n, met⟩

end Family

/-- The hosts of a group come out once each, with one entry, none from beyond the limit; all of them
exactly when each is in a group first met within the limit. -/
theorem group_stands_for_its_hosts (groups : String → Option (List String))
    (profiles : String → Option ConnectionProfile) (vaultId : String)
    (personalAuth : ConnectionProfile → Option (String × AuthMethod)) (root : String) (d : Nat) :
    let F : Family := ⟨groups, fun id => (profiles id).isSome, root, d⟩
    F.Apart → (groups root).isSome →
      F.flattenGroupMembers.result.Nodup ∧
      (∃ targets plans, resolveGroup vaultId personalAuth groups profiles root d =
          some (targets, plans) ∧
        targets.map (fun t => (t.host, t.port, t.user)) =
          (plans.filter fun e => e.status = .ok).map (fun e => (e.host, e.port, e.user)) ∧
        (((∀ p, p ∈ F.flattenGroupMembers.result ↔ (profiles p).isSome ∧ F.StandsFor p) ∧
          (∀ m, F.StandsFor m → groups m = none → profiles m = none →
            (m, .dangling) ∈ F.flattenGroupMembers.issues) ∧
          ∀ p, (profiles p).isSome → F.StandsFor p →
            (plans.map GroupTargetPlan.memberId).count p = 1) ↔ F.Reached)) ∧
      ((∀ above g n, F.Chain above g → above.length ≤ d → (g, n) ∈ F.meetings → n ≤ d) →
        F.Reached) := by
  intro F apart group
  obtain ⟨sound, -, placed⟩ := F.flatten_lists apart group
  refine ⟨sound.once, ?_, F.reached_of_within apart group⟩
  have notGroup p (host : (profiles p).isSome) : groups p = none := by
    refine Option.eq_none_iff_forall_ne_some.mpr fun members found => ?_
    exact nomatch host.symm.trans (apart p (Option.isSome_of_eq_some found))
  obtain ⟨entries, ran, listed, logins⟩ := entries_of_hosts vaultId personalAuth
    fun id inside => (sound.hosts id inside).1
  obtain ⟨members, found⟩ := Option.isSome_iff_exists.mp group
  refine ⟨_, _, by rw [resolveGroup, found]; exact congrArg (Option.bind · _) ran, ?_, ?_⟩
  · rw [filter_append, map_append, logins, self_eq_append_right, map_eq_nil_iff, filter_eq_nil_iff]
    intro e listed
    obtain ⟨issue, isIssue, rfl⟩ := mem_map.mp listed
    simpa using (sound.issues issue isIssue).1
  constructor
  · rintro ⟨hosts, dangling, -⟩ m stands isMember
    cases host : profiles m with
    | none => exact (sound.issues _ (dangling m stands isMember host)).2.2 rfl
    | some p => exact (sound.hosts m ((hosts m).mpr ⟨Option.isSome_of_eq_some host, stands⟩)).2
  · intro reached
    have complete p (host : (profiles p).isSome) (stands : F.StandsFor p) :
        p ∈ F.flattenGroupMembers.result :=
      (placed p (reached p stands (notGroup p host))).profile (notGroup p host) host
    refine ⟨fun p => ⟨fun inside => (sound.hosts p inside).imp_right sound.standsFor,
      fun ⟨host, stands⟩ => complete p host stands⟩, fun m stands noGroup noHost => ?_,
      fun p host stands => ?_⟩
    · refine (placed m (reached m stands noGroup)).dangling noGroup ?_
      exact Option.isSome_eq_false_iff.mpr (Option.isNone_iff_eq_none.mpr noHost)
    · have once : (entries.map fun e => e.1.memberId).count p = 1 := by
        rw [listed]
        exact count_eq_one_of_mem sound.once (complete p host stands)
      have noIssue : p ∉ F.flattenGroupMembers.issues.map Prod.fst := by
        intro listed
        obtain ⟨issue, isIssue, rfl⟩ := mem_map.mp listed
        exact nomatch host.symm.trans (sound.issues issue isIssue).2.1
      rw [map_append, map_map, map_map, count_append]
      exact congrArg₂ (· + ·) once (count_eq_zero.mpr noIssue)

namespace Sample

/-- A group that is nested in the root and in another group of the root. -/
def nested (top : List String) : String → Option (List String)
  | "all" => some top
  | "web" => some ["db"]
  | "db" => some ["host"]
  | _ => none

def host (id : String) : Option ConnectionProfile :=
  if id = "host" then some ⟨id, "", "", "10.0.0.1", 22, "me", .key "k", none, [], none⟩ else none

/-- The family with one level below the root. -/
def family (top : List String) : Family := ⟨nested top, fun id => (host id).isSome, "all", 1⟩

theorem family_standsFor (inTop : "db" ∈ top) : (family top).StandsFor "host" :=
  ⟨["all"], "db", .nested .root ⟨top, rfl, inTop⟩ rfl, Nat.le_refl 1, ["host"], rfl, by decide⟩

end Sample

open Sample

/-- Where the other group comes first, the group is first met below the limit and its host is left
out. -/
theorem nested_host_left_out : (family ["web", "db"]).StandsFor "host" ∧
    (family ["web", "db"]).flattenGroupMembers.result = [] :=
  ⟨family_standsFor (by decide), by decide⟩

/-- Where the other group comes last, the group is first met within the limit. -/
theorem group_stands_for_its_hosts_nested : ∃ targets plans,
    resolveGroup "v" (fun _ => none) (nested ["db", "web"]) host "all" 1 = some (targets, plans) ∧
      (plans.map GroupTargetPlan.memberId).count "host" = 1 := by
  have apart : (family ["db", "web"]).Apart := fun id isGroup => by
    change (nested _ id).isSome at isGroup
    unfold nested at isGroup
    split at isGroup
    · decide
    · decide
    · decide
    · cases isGroup
  obtain ⟨-, ⟨targets, plans, ran, -, exact⟩, reached⟩ := group_stands_for_its_hosts
    (nested ["db", "web"]) host "v" (fun _ => none) "all" 1 apart rfl
  have shallow : ∀ met ∈ (family ["db", "web"]).meetings, met.2 ≤ 1 := by decide
  obtain ⟨-, -, once⟩ := exact.mpr (reached fun _ g n _ _ met => shallow (g, n) met)
  exact ⟨targets, plans, ran, once "host" rfl (family_standsFor (by decide))⟩

end UniSsh.Groups
