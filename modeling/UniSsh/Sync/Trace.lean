import UniSsh.Sync.Handled

/-!
# Pulls as runs of single steps

A pull, returned or failed, is a run of two kinds of step: an object is processed, or the cursor
advances. What both keep, every pull keeps (`PullTrace.related`).
-/

namespace UniSsh

open List Storage

/-- One step of a pull. -/
inductive PullEvent where
  | processed (entry : UInt64 × SyncObject) (result : Except SyncError Outcome)
  | advanced (seq : UInt64)

/-- The stored pull cursor of a tenant, zero when there is none. -/
def storedCursor (s : Storage) (tenant : Bytes) : UInt64 :=
  (s.getSyncCursor (pullCursorKey tenant)).getD 0

/-- Processing `obj` from `s` ends with `result` and leaves `s'`. -/
def Processes (P : Primitives) (ctx : SyncContext) (s : Storage) (obj : SyncObject)
    (result : Except SyncError Outcome) (s' : Storage) : Prop :=
  valueOf ((processObject P ctx obj).run s) = result ∧
    finalState ((processObject P ctx obj).run s) = s'

variable {obj : SyncObject} {result : Except SyncError Outcome}

theorem Processes.handled (ran : Processes P ctx s obj result s') :
    Handled P ctx s obj result s' := by
  obtain ⟨rfl, rfl⟩ := ran
  exact processObject_handled ctx s obj

section Applied

variable {P : Primitives} {ctx : SyncContext} {s s' : Storage}

/-- An item that was applied was admitted. -/
theorem Processes.itemAdmitted (applied : Processes P ctx s (.item i) (.ok .applied) s') :
    ItemAdmitted P ctx s i := by
  cases applied.handled with
  | kept _ _ notApplied => exact (notApplied rfl).elim
  | item _ _ admitted => exact admitted

theorem Processes.vaultAdmitted (applied : Processes P ctx s (.vault v) (.ok .applied) s') :
    VaultAdmitted P ctx s v := by
  cases applied.handled with
  | kept _ _ notApplied => exact (notApplied rfl).elim
  | relabelled _ _ _ notApplied => exact (notApplied rfl).elim
  | vault _ _ admitted => exact admitted

end Applied

/-- A run of the engine from one storage to another. -/
inductive PullTrace (P : Primitives) (ctx : SyncContext) :
    Storage → List PullEvent → Storage → Prop where
  | done (s : Storage) : PullTrace P ctx s [] s
  | processed {s mid s' : Storage} {events : List PullEvent} (entry : UInt64 × SyncObject)
      (result : Except SyncError Outcome) (ran : Processes P ctx s entry.2 result mid)
      (rest : PullTrace P ctx mid events s') :
      PullTrace P ctx s (.processed entry result :: events) s'
  | advanced {s mid s' : Storage} {events : List PullEvent} (seq : UInt64)
      (forward : storedCursor s ctx.tenant ≤ seq)
      (wrote : s.setSyncCursor (pullCursorKey ctx.tenant) seq = .ok mid)
      (rest : PullTrace P ctx mid events s') :
      PullTrace P ctx s (.advanced seq :: events) s'

/-- The objects processed in a run are all among `delivered`. -/
def ProcessedFrom (delivered : List (UInt64 × SyncObject)) (events : List PullEvent) : Prop :=
  ∀ entry result, .processed entry result ∈ events → entry ∈ delivered

theorem ProcessedFrom.nil (delivered : List (UInt64 × SyncObject)) : ProcessedFrom delivered [] := by
  intro entry result member
  exact absurd member not_mem_nil

namespace PullTrace

variable {P : Primitives} {ctx : SyncContext} {s mid s' : Storage}
  {events events' : List PullEvent}

theorem append (first : PullTrace P ctx s events mid) (second : PullTrace P ctx mid events' s') :
    PullTrace P ctx s (events ++ events') s' := by
  induction first with
  | done => exact second
  | processed entry result ran _ ih => exact .processed entry result ran (ih second)
  | advanced seq forward wrote _ ih => exact .advanced seq forward wrote (ih second)

/-- A preorder that every step respects relates the two ends of a run. -/
theorem related {R : Storage → Storage → Prop} [Std.Refl R] [IsTrans Storage R]
    (onObject : ∀ {s mid obj result}, Handled P ctx s obj result mid → R s mid)
    (onCursor : ∀ {s mid seq}, storedCursor s ctx.tenant ≤ seq →
      s.setSyncCursor (pullCursorKey ctx.tenant) seq = .ok mid → R s mid)
    (trace : PullTrace P ctx s events s') : R s s' := by
  induction trace with
  | done s => exact Std.Refl.refl s
  | processed _ _ ran _ ih => exact IsTrans.trans _ _ _ (onObject ran.handled) ih
  | advanced _ forward wrote _ ih => exact IsTrans.trans _ _ _ (onCursor forward wrote) ih

/-- What a run leaves of a view is what was there, or what the last object that wrote it left. -/
theorem last_write {β : Type} {view : Storage → β} {Wrote : Storage → SyncObject → Storage → Prop}
    (onObject : ∀ {s mid obj result}, Handled P ctx s obj result mid →
      view mid = view s ∨ result = .ok .applied ∧ Wrote s obj mid)
    (onCursor : ∀ s syncState, view { s with syncState } = view s)
    (trace : PullTrace P ctx s events s') :
    view s' = view s ∨ ∃ entry before after mid mid',
      .processed entry (.ok .applied) ∈ events ∧ PullTrace P ctx s before mid ∧
      Processes P ctx mid entry.2 (.ok .applied) mid' ∧ PullTrace P ctx mid' after s' ∧
      Wrote mid entry.2 mid' ∧ view s' = view mid' := by
  induction trace with
  | done => exact .inl rfl
  | @processed s first s' events entry result ran rest ih =>
    rcases ih with kept | ⟨entry', before, after, mid, mid', member, lead, step, tail, wrote, left⟩
    · rcases onObject ran.handled with same | ⟨rfl, wrote⟩
      · exact .inl (kept.trans same)
      · exact .inr ⟨entry, [], events, s, first, mem_cons_self, .done s, ran, rest, wrote, kept⟩
    · exact .inr ⟨entry', _ :: before, after, mid, mid', mem_cons_of_mem _ member,
        .processed entry result ran lead, step, tail, wrote, left⟩
  | @advanced s first s' events seq forward moved rest ih =>
    rcases ih with kept | ⟨entry', before, after, mid, mid', member, lead, step, tail, wrote, left⟩
    · obtain ⟨_, _, rfl⟩ := setSyncCursor_eq_ok.mp moved
      exact .inl (kept.trans (onCursor _ _))
    · exact .inr ⟨entry', _ :: before, after, mid, mid', mem_cons_of_mem _ member,
        .advanced seq forward moved lead, step, tail, wrote, left⟩

end PullTrace

variable {events : List PullEvent}

theorem ProcessedFrom.append (first : ProcessedFrom delivered events)
    (second : ProcessedFrom delivered events') :
    ProcessedFrom delivered (events ++ events') := by
  intro entry result member
  rcases mem_append.mp member with left | right
  · exact first entry result left
  · exact second entry result right

theorem ProcessedFrom.mono (inside : delivered ⊆ more) (processed : ProcessedFrom delivered events)
    : ProcessedFrom more events :=
  fun entry result member => inside (processed entry result member)

variable {P : Primitives} {ctx : SyncContext} {s s' : Storage}

theorem Handled.storedCursor_eq (handled : Handled P ctx s obj result s') (tenant : Bytes) :
    storedCursor s' tenant = storedCursor s tenant := by
  unfold storedCursor getSyncCursor
  rw [handled.frame.cursors]

theorem storedCursor_setSyncCursor (wrote : s.setSyncCursor (pullCursorKey tenant) seq = .ok s') :
    storedCursor s' tenant = seq := by
  obtain ⟨n, rfl, rfl⟩ := setSyncCursor_eq_ok.mp wrote
  simp [storedCursor, getSyncCursor]

/-! ## The engine's loops as runs -/

theorem passCursor_run (tenant : Bytes) (cursor seq : UInt64) (s : Storage) :
    (passCursor (pullCursorKey tenant) cursor seq).run s =
      if cursor < seq then
        match s.setSyncCursor (pullCursorKey tenant) seq with
        | .ok s' => .ok seq s'
        | .error e => .error (.storage e) s
      else .ok cursor s := by
  unfold passCursor advanceCursor
  split
  · next above =>
    rw [if_neg (UInt64.not_lt.mpr (UInt64.le_of_lt above)), EStateM.run_bind, storageWrite_run]
    cases s.setSyncCursor (pullCursorKey tenant) seq <;> rfl
  · rfl

/-- A page is a run over objects of the page that keeps the stored cursor in step with the
engine's. -/
theorem pullPage_trace (P : Primitives) (ctx : SyncContext) (floor cursor : UInt64)
    (report : SyncReport) (page : List (UInt64 × SyncObject)) (s : Storage)
    (inStep : storedCursor s ctx.tenant = cursor) :
    ∃ events, ProcessedFrom page events ∧
      PullTrace P ctx s events (finalState ((pullPage P ctx floor page cursor report).run s)) ∧
      ∀ cursor' report' s', (pullPage P ctx floor page cursor report).run s =
        .ok (cursor', report') s' → storedCursor s' ctx.tenant = cursor' := by
  induction page generalizing cursor report s with
  | nil =>
    refine ⟨[], .nil _, .done s, ?_⟩
    intro _ _ _ ran
    cases ran
    exact inStep
  | cons entry rest ih =>
    obtain ⟨seq, obj⟩ := entry
    have inside : rest ⊆ (seq, obj) :: rest := subset_cons_self _ _
    unfold pullPage
    split
    · obtain ⟨events, from_, trace, after⟩ := ih cursor _ s inStep
      exact ⟨events, from_.mono inside, trace, after⟩
    · rw [EStateM.run_bind]
      cases ran : (processObject P ctx obj).run s with
      | error e mid =>
        have failed : Processes P ctx s obj (.error e) mid :=
          ⟨congrArg valueOf ran, congrArg finalState ran⟩
        refine ⟨[.processed (seq, obj) (.error e)], ?_, .processed _ _ failed (.done mid), ?_⟩
        · intro entry result member
          cases mem_singleton.mp member
          exact mem_cons_self
        · intro _ _ _ impossible
          cases impossible
      | ok outcome mid =>
        have passed : Processes P ctx s obj (.ok outcome) mid :=
          ⟨congrArg valueOf ran, congrArg finalState ran⟩
        have kept := passed.handled.storedCursor_eq ctx.tenant
        rw [inStep] at kept
        have processed : ProcessedFrom ((seq, obj) :: rest)
            [.processed (seq, obj) (.ok outcome)] := by
          intro entry result member
          cases mem_singleton.mp member
          exact mem_cons_self
        dsimp only
        rw [EStateM.run_bind, passCursor_run]
        by_cases above : cursor < seq
        · rw [if_pos above]
          cases wrote : mid.setSyncCursor (pullCursorKey ctx.tenant) seq with
          | error =>
            refine ⟨_, processed, .processed _ _ passed (.done mid), ?_⟩
            intro _ _ _ impossible
            cases impossible
          | ok moved =>
            obtain ⟨events, from_, trace, after⟩ :=
              ih seq (report.add seq outcome) moved (storedCursor_setSyncCursor wrote)
            have forward : storedCursor mid ctx.tenant ≤ seq := kept ▸ UInt64.le_of_lt above
            refine ⟨.processed (seq, obj) (.ok outcome) :: .advanced seq :: events, ?_,
              .processed _ _ passed (.advanced seq forward wrote trace), after⟩
            have later : ProcessedFrom ((seq, obj) :: rest) (.advanced seq :: events) := by
              intro entry result member
              rcases mem_cons.mp member with same | later
              · cases same
              · exact inside (from_ entry result later)
            exact processed.append later
        · rw [if_neg above]
          obtain ⟨events, from_, trace, after⟩ := ih cursor (report.add seq outcome) mid kept
          exact ⟨.processed (seq, obj) (.ok outcome) :: events,
            processed.append (from_.mono inside), .processed _ _ passed trace, after⟩

/-- One round of the page loop: the page it got, and what it started from. -/
structure Round where
  cursor : UInt64
  report : SyncReport
  delta : List (UInt64 × SyncObject)
  storage : Storage

/-- The rounds of the page loop, up to the one that ends or fails it. -/
def rounds (P : Primitives) (ctx : SyncContext) {τ : Type} (T : SyncTransport τ)
    (cursor : UInt64) (report : SyncReport) (t : τ) (s : Storage) : List Round :=
  match T.deltaSince t cursor with
  | ([], _) => []
  | (delta, t) =>
    { cursor, report, delta, storage := s } ::
      match _ran : (pullPage P ctx cursor (sortDelta delta) cursor report).run s with
      | .error _ _ => []
      | .ok (cursor', report) s =>
        if _moved : cursor' = cursor then [] else rounds P ctx T cursor' report t s
termination_by 2 ^ 64 - cursor.toNat
decreasing_by
  have le := UInt64.le_iff_toNat_le.mp (pullPage_cursor_le P ctx _ran)
  have ne : cursor'.toNat ≠ cursor.toNat := fun same => _moved (UInt64.toNat_inj.mp same)
  have bound := cursor'.toNat_lt
  omega

/-- The rounds of one pull. -/
def pullRounds (P : Primitives) (ctx : SyncContext) {τ : Type} (T : SyncTransport τ) (t : τ)
    (s : Storage) : List Round :=
  if T.reportVersion t < storedCursor s ctx.tenant then []
  else rounds P ctx T (storedCursor s ctx.tenant) {} t s

/-- The objects a transport hands out during one pull. -/
def delivered (P : Primitives) (ctx : SyncContext) {τ : Type} (T : SyncTransport τ) (t : τ)
    (s : Storage) : List (UInt64 × SyncObject) :=
  (pullRounds P ctx T t s).flatMap Round.delta

theorem sortDelta_subset (delta : List (UInt64 × SyncObject)) : sortDelta delta ⊆ delta :=
  fun _ member => (mem_insertionSort _).mp member

/-- One round of the page loop. -/
theorem pullPages_eq {τ : Type} (T : SyncTransport τ) (cursor : UInt64) (report : SyncReport)
    (t : τ) (s : Storage) :
    pullPages P ctx T cursor report t s =
      if (T.deltaSince t cursor).1 = [] then .ok report s
      else
        match (pullPage P ctx cursor (sortDelta (T.deltaSince t cursor).1) cursor report).run s with
        | .error e s => .error e s
        | .ok (cursor', report) s =>
          if cursor' = cursor then .ok report s
          else pullPages P ctx T cursor' report (T.deltaSince t cursor).2 s := by
  rw [pullPages]
  split
  · next asked => simp [asked]
  · next delta _ nonempty asked =>
    simp only [asked, show delta ≠ [] from nonempty, if_false]
    split
    · next ran => simp only [ran]
    · next ran => simp only [ran, dite_eq_ite]

theorem rounds_eq {τ : Type} (T : SyncTransport τ) (cursor : UInt64)
    (report : SyncReport) (t : τ) (s : Storage) :
    rounds P ctx T cursor report t s =
      if (T.deltaSince t cursor).1 = [] then []
      else
        { cursor, report, delta := (T.deltaSince t cursor).1, storage := s } ::
          match (pullPage P ctx cursor (sortDelta (T.deltaSince t cursor).1) cursor report).run s
          with
          | .error _ _ => []
          | .ok (cursor', report) s =>
            if cursor' = cursor then []
            else rounds P ctx T cursor' report (T.deltaSince t cursor).2 s := by
  rw [rounds]
  split
  · next asked => simp [asked]
  · next delta _ nonempty asked =>
    simp only [asked, show delta ≠ [] from nonempty, if_false]
    split
    · next ran => simp only [ran]
    · next ran => simp only [ran, dite_eq_ite]

/-- The page loop, by the number of sequence numbers above the cursor. -/
theorem pullPages_induction (P : Primitives) (ctx : SyncContext) {τ : Type}
    (T : SyncTransport τ) {motive : UInt64 → SyncReport → τ → Storage → Prop}
    (round : ∀ cursor report t s, (∀ cursor' report' s',
        (pullPage P ctx cursor (sortDelta (T.deltaSince t cursor).1) cursor report).run s =
          .ok (cursor', report') s' → cursor' ≠ cursor →
        motive cursor' report' (T.deltaSince t cursor).2 s') →
      motive cursor report t s)
    (cursor : UInt64) (report : SyncReport) (t : τ) (s : Storage) : motive cursor report t s := by
  induction measure : 2 ^ 64 - cursor.toNat using Nat.strongRecOn generalizing cursor report t s with
  | ind _ ih =>
    apply round
    intro cursor' report' s' ran moved
    have le := UInt64.le_iff_toNat_le.mp (pullPage_cursor_le P ctx ran)
    have ne : cursor'.toNat ≠ cursor.toNat := fun same => moved (UInt64.toNat_inj.mp same)
    have bound := cursor'.toNat_lt
    exact ih (2 ^ 64 - cursor'.toNat) (by omega) cursor' report' _ s' rfl

private theorem pullPages_trace {τ : Type} (T : SyncTransport τ) (cursor : UInt64)
    (report : SyncReport) (t : τ) (s : Storage) (inStep : storedCursor s ctx.tenant = cursor) :
    ∃ events, ProcessedFrom ((rounds P ctx T cursor report t s).flatMap Round.delta) events ∧
      PullTrace P ctx s events (finalState (pullPages P ctx T cursor report t s)) := by
  revert inStep
  induction cursor, report, t, s using pullPages_induction P ctx T with
  | round cursor report t s ih =>
    intro inStep
    obtain ⟨events, from_, trace, after⟩ :=
      pullPage_trace P ctx cursor cursor report (sortDelta (T.deltaSince t cursor).1) s inStep
    have here : ProcessedFrom (T.deltaSince t cursor).1 events := from_.mono (sortDelta_subset _)
    rw [pullPages_eq, rounds_eq]
    split
    · exact ⟨[], .nil _, .done s⟩
    · cases ran : (pullPage P ctx cursor (sortDelta (T.deltaSince t cursor).1) cursor report).run s
        with
      | error e s' =>
        rw [ran] at trace
        exact ⟨events, here.mono (subset_append_left _ _), trace⟩
      | ok value s' =>
        obtain ⟨cursor', report'⟩ := value
        rw [ran] at trace
        by_cases moved : cursor' = cursor
        · simp only [moved, if_true]
          exact ⟨events, here.mono (subset_append_left _ _), trace⟩
        · obtain ⟨later, laterFrom, laterTrace⟩ :=
            ih cursor' report' s' ran moved (after cursor' report' s' ran)
          simp only [moved, if_false]
          exact ⟨events ++ later, (here.mono (subset_append_left _ _)).append
              (laterFrom.mono (subset_append_right _ _)),
            trace.append laterTrace⟩

/-- A pull, returned or failed, is a run over objects its transport handed out. -/
theorem syncPull_trace {τ : Type} (T : SyncTransport τ) (t : τ) (s : Storage) :
    ∃ events, ProcessedFrom (delivered P ctx T t s) events ∧
      PullTrace P ctx s events (finalState ((syncPull P ctx T t).run s)) := by
  unfold delivered pullRounds syncPull
  change ∃ events, _ ∧ PullTrace P ctx s events (finalState
    (if T.reportVersion t < storedCursor s ctx.tenant then _ else _))
  split
  · exact ⟨[], .nil _, .done s⟩
  · exact pullPages_trace T _ {} t s rfl

/-- So is the application of already-fetched objects. -/
theorem applyPulledObjects_trace :
    ∃ events, ProcessedFrom objects events ∧
      PullTrace P ctx s events (finalState ((applyPulledObjects P ctx objects).run s)) := by
  have all : ∀ (page : List (UInt64 × SyncObject)) (report : SyncReport) (s : Storage),
      ∃ events, ProcessedFrom page events ∧
        PullTrace P ctx s events (finalState ((applyAll P ctx page report).run s)) := by
    intro page
    induction page with
    | nil =>
      intro report s
      exact ⟨[], .nil _, .done s⟩
    | cons entry rest ih =>
      intro report s
      obtain ⟨seq, obj⟩ := entry
      have processed : ∀ result, ProcessedFrom ((seq, obj) :: rest)
          [.processed (seq, obj) result] := by
        intro _ _ _ member
        cases mem_singleton.mp member
        exact mem_cons_self
      unfold applyAll
      rw [EStateM.run_bind]
      cases ran : (processObject P ctx obj).run s with
      | error e mid =>
        have failed : Processes P ctx s obj (.error e) mid :=
          ⟨congrArg valueOf ran, congrArg finalState ran⟩
        exact ⟨_, processed (.error e), .processed _ _ failed (.done mid)⟩
      | ok outcome mid =>
        have passed : Processes P ctx s obj (.ok outcome) mid :=
          ⟨congrArg valueOf ran, congrArg finalState ran⟩
        obtain ⟨events, from_, trace⟩ := ih (report.add seq outcome) mid
        exact ⟨_, (processed (.ok outcome)).append (from_.mono (subset_cons_self _ _)),
          .processed _ _ passed trace⟩
  obtain ⟨events, from_, trace⟩ := all (sortDelta objects) {} s
  exact ⟨events, from_.mono (sortDelta_subset objects), trace⟩

end UniSsh
