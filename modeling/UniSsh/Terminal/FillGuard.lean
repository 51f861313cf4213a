import Mathlib.Data.List.Basic
import UniSsh.Base.Logged
import UniSsh.Terminal.Prompt
import UniSsh.Terminal.EchoMask
import UniSsh.Vault.Membership

/-!
# Offering the saved password of a session

The guard offers the login password once for each appearance of a prompt, and never types one
again that was rejected. Its calls are atomic, and the rules are about every log they can write.
-/

namespace UniSsh.Terminal

open List Option

/-- How soon after a fill the same kind of prompt means a refusal, in milliseconds. -/
def rejectWindow : Nat := 15000
def tailMax : Nat := 512

/-- What the core tells the observer about a session's offer. -/
inductive FillEvent where
  | offered (kind : FillPromptKind) (offerId : UInt64) (user : Option String) (rejectedBefore : Bool)
  | withdrawn (offerId : UInt64)
  | rejected
  | echoed

/-- One appearance of a recognised prompt at the end of the output. -/
structure PromptInstance where
  id : UInt64
  kind : FillPromptKind
  offerable : Bool
  consumed : Bool

def PromptInstance.isLive (p : PromptInstance) : Bool := p.offerable && !p.consumed

inductive TypedSince where
  | nothing
  | enter
  | other
  deriving DecidableEq

structure LastFill where
  filledAt : Nat
  kind : FillPromptKind
  digest : Bytes
  typed : TypedSince
  rejected : Bool

/-- Whether a new prompt is the one the fill answered, coming straight back. -/
def LastFill.answers (f : LastFill) (kind : FillPromptKind) (now : Nat) : Bool :=
  f.kind = kind && f.typed ≠ .other && decide (now - f.filledAt < rejectWindow)

def isLineEnd (b : UInt8) : Bool := b = 0x0d || b = 0x0a

def LastFill.noteInput (f : LastFill) (data : Bytes) : LastFill :=
  { f with typed := if f.typed = .other || !data.all isLineEnd then .other else .enter }

/-- What a guard is bound to when its session opens. -/
structure Config where
  loginUser : String
  allowGeneric : Bool
  digestKey : Bytes

structure GuardState where
  tail : Bytes
  current : Option PromptInstance
  lastFill : Option LastFill
  echo : Option EchoMask
  nextId : UInt64
  rejected : List Bytes
  holdGen : UInt64

namespace GuardState

def new : GuardState where
  tail := []
  current := none
  lastFill := none
  echo := none
  nextId := 1
  rejected := []
  holdGen := 0

variable (text : Unicode) (cfg : Config) (st : GuardState)

def pushTail (out : Bytes) : GuardState :=
  if drawsElsewhere text out then st
  else
    let tail := st.tail ++ out
    { st with tail := tail.drop (tail.length - tailMax) }

/-- A new prompt instance: offered, unless it is a refusal. -/
def openInstance (kind : FillPromptKind) (now : Nat) :
    GuardState × PromptInstance × List FillEvent :=
  match st.lastFill.filter fun f => f.answers kind now with
  | some fill =>
    let refused : PromptInstance := { id := 0, kind, offerable := false, consumed := false }
    if fill.rejected then (st, refused, [])
    else
      ({ st with
          lastFill := some { fill with rejected := true }
          rejected := if fill.digest ∈ st.rejected then st.rejected
            else st.rejected ++ [fill.digest] },
        refused, [.rejected])
  | none =>
    ({ st with nextId := saturatingSucc st.nextId },
      { id := st.nextId, kind, offerable := true, consumed := false },
      [.offered kind st.nextId (if kind ≠ .generic then some cfg.loginUser else none)
        (!st.rejected.isEmpty)])

/-- The withdrawal of the live offer. -/
def withdrawal : List FillEvent :=
  match st.current with
  | some p => if p.isLive then [.withdrawn p.id] else []
  | none => []

/-- The prompt at the end of the output is another one now. -/
def replacePrompt (next : Option FillPromptKind) (now : Nat) : GuardState × List FillEvent :=
  match next with
  | none => ({ st with current := none }, st.withdrawal)
  | some kind =>
    let (st', opened, events) := st.openInstance cfg kind now
    ({ st' with current := some opened }, st.withdrawal ++ events)

def transition (next : Option FillPromptKind) (now : Nat) : GuardState × List FillEvent :=
  match st.current, next with
  | none, none => (st, [])
  | some cur, some kind => if cur.kind = kind then (st, []) else st.replacePrompt cfg next now
  | _, _ => st.replacePrompt cfg next now

/-- Runs output that is about to be shown past the classifier. -/
def observe (out : Bytes) (now : Nat) : GuardState × List FillEvent :=
  let st := st.pushTail text out
  let next := classifyTail text st.tail cfg.loginUser cfg.allowGeneric
  -- A line end leaves the old prompt, even where the chunk ends on the same kind again.
  let (st, left) := if 0x0a ∈ out then st.transition cfg none now else (st, [])
  let (st, events) := st.transition cfg next now
  (st, left ++ events)

def onOutput (data : Bytes) (now : Nat) : GuardState × Bytes × List FillEvent :=
  let st := { st with holdGen := st.holdGen + 1 }
  match st.echo with
  | none =>
    let (st, events) := st.observe text cfg data now
    (st, data, events)
  | some mask =>
    let (mask, masked) := mask.feed data now
    let st := { st with echo := if masked.expired then none else some mask }
    let (st, events) := st.observe text cfg masked.out now
    (st, masked.out, (if masked.echoed then [.echoed] else []) ++ events)

def heldBack : Bytes := (st.echo.map EchoMask.held).getD []

def flushHeld (now : Nat) : GuardState × Bytes × List FillEvent :=
  let held := st.heldBack
  let st := { st with echo := st.echo.map fun mask => { mask with held := [] } }
  if held = [] then (st, held, [])
  else
    let (st, events) := st.observe text cfg held now
    (st, held, events)

/-- The live offer, if it has this id. -/
def live (offerId : UInt64) : Option PromptInstance :=
  st.current.filter fun p => p.isLive && p.id = offerId

def noteInput (data : Bytes) (now : Nat) : GuardState × List FillEvent :=
  ({ st with
      echo := st.echo.map fun mask => mask.noteInput now
      lastFill := st.lastFill.map fun f => f.noteInput data
      current := st.current.map fun p => if p.isLive then { p with consumed := true } else p },
    st.withdrawal)

def noOffer : String := "no password prompt is waiting for the saved password"
def wasRejected : String := "saved password was rejected on this session"

/-- Takes the live offer for a fill and arms what watches the result. -/
def claim (offerId : UInt64) (secret digest : Bytes) (now : Nat) :
    GuardState × Except String FillPromptKind × Bytes × List FillEvent :=
  match st.live offerId with
  | none => (st, .error noOffer, [], [])
  | some offer =>
    if digest ∈ st.rejected then (st, .error wasRejected, [], [])
    else
      ({ st with
          current := st.current.map fun p => { p with consumed := true }
          echo := EchoMask.new secret now
          lastFill := some
            { filledAt := now, kind := offer.kind, digest, typed := .nothing, rejected := false } },
        .ok offer.kind, st.heldBack, [.withdrawn offerId])

end GuardState

/-! ## The calls of a guard and their log -/

/-- What a terminal sends on its own when it gains or loses focus. -/
def isFocusReport (data : Bytes) : Bool := data = [0x1b, 0x5b, 0x49] || data = [0x1b, 0x5b, 0x4f]

def secretDigest (sha256 : Bytes → Bytes) (key secret : Bytes) : Bytes := sha256 (key ++ secret)

inductive GuardOp where
  | onOutput (data : Bytes) (now : Nat)
  | flushIdle (generation : UInt64) (now : Nat)
  | noteInput (data : Bytes) (now : Nat)
  | claim (offerId : UInt64) (secret : Bytes) (now : Nat)
  | abortFill
  | close

/-- The observer was told something, input arrived, a claim succeeded, or a fill was aborted. -/
inductive GuardEntry where
  | told (now : Nat) (event : FillEvent)
  | typed (data : Bytes)
  | filled (now : Nat) (offerId : UInt64) (secret : Bytes) (kind : FillPromptKind)
  | aborted

section Run

variable (text : Unicode) (sha256 : Bytes → Bytes) (cfg : Config)

def GuardState.act (st : GuardState) : GuardOp → GuardState × List GuardEntry
  | .onOutput data now =>
    let (st, _, events) := st.onOutput text cfg data now
    (st, events.map (.told now))
  | .flushIdle generation now =>
    if st.holdGen ≠ generation then (st, [])
    else
      let (st, _, events) := st.flushHeld text cfg now
      (st, events.map (.told now))
  | .noteInput data now =>
    if isFocusReport data then (st, [.typed data])
    else
      let (st, events) := st.noteInput data now
      (st, .typed data :: events.map (.told now))
  | .claim offerId secret now =>
    match st.claim offerId secret (secretDigest sha256 cfg.digestKey secret) now with
    | (st, .ok kind, _, events) => (st, .filled now offerId secret kind :: events.map (.told now))
    | (st, .error _, _, events) => (st, events.map (.told now))
  | .abortFill => ({ st with echo := none, lastFill := none }, [.aborted])
  | .close => ({ st with echo := none }, [])

/-- A session's guard after some calls. -/
def guardOf (ops : List GuardOp) : Logged GuardState GuardEntry :=
  Logged.run (GuardState.act text sha256 cfg) { state := .new, log := [] } ops

end Run

/-! ## What a log says -/

/-- The ids offered so far, the latest first. -/
def offeredIds : List GuardEntry → List UInt64
  | [] => []
  | .told _ (.offered _ id _ _) :: past => id :: offeredIds past
  | _ :: past => offeredIds past

/-- The offer that has not been withdrawn. -/
def openOffer : List GuardEntry → Option UInt64
  | [] => none
  | .told _ (.offered _ id _ _) :: _ => some id
  | .told _ (.withdrawn _) :: _ => none
  | _ :: past => openOffer past

/-- The offer since which nothing was withdrawn, filled or typed. -/
def untouchedOffer : List GuardEntry → Option UInt64
  | [] => none
  | .told _ (.offered _ id _ _) :: _ => some id
  | .told _ (.withdrawn _) :: _ | .filled _ _ _ _ :: _ => none
  | .typed data :: past => if isFocusReport data then untouchedOffer past else none
  | _ :: past => untouchedOffer past

/-- A fill and whether only line ends, and reports of focus, were typed since. -/
structure FillSeen where
  filledAt : Nat
  kind : FillPromptKind
  secret : Bytes
  onlyEnter : Bool

/-- The last fill, if it was not aborted. -/
def lastFilled : List GuardEntry → Option FillSeen
  | [] => none
  | .filled now _ secret kind :: _ => some { filledAt := now, kind, secret, onlyEnter := true }
  | .aborted :: _ => none
  | .typed data :: past =>
    if isFocusReport data then lastFilled past
    else (lastFilled past).map fun f =>
      { f with onlyEnter := f.onlyEnter && data.all isLineEnd }
  | .told _ _ :: past => lastFilled past

/-- The secrets of the fills for which a rejection was told. -/
def rejectedSecrets : List GuardEntry → List Bytes
  | [] => []
  | .told _ .rejected :: past => ((lastFilled past).map FillSeen.secret).toList ++ rejectedSecrets past
  | _ :: past => rejectedSecrets past

/-- The id after so many offers: their number and one, as long as there is such an id. -/
def idAfter (offers : Nat) : Nat := min (offers + 1) (2 ^ 64 - 1)

/-- The rules of a session, for an event and what happened before it. -/
def GuardLaw : GuardEntry → List GuardEntry → Prop
  | .told now (.offered kind id _ _), past =>
    openOffer past = none ∧ id.toNat = idAfter (offeredIds past).length ∧
      ∀ fill, lastFilled past = some fill → fill.kind = kind → fill.onlyEnter = true →
        rejectWindow ≤ now - fill.filledAt
  | .told _ (.withdrawn id), past => openOffer past = some id
  | .told _ .rejected, past => (lastFilled past).isSome
  | .told _ .echoed, _ => True
  | .filled _ id secret _, past => untouchedOffer past = some id ∧ secret ∉ rejectedSecrets past
  | .typed _, _ | .aborted, _ => True

/-! ## The guard keeps the rules -/

def GuardState.liveId (st : GuardState) : Option UInt64 :=
  (st.current.filter PromptInstance.isLive).map PromptInstance.id

/-- What the guard remembers of a fill, and what it would of one in the log. -/
def LastFill.seen (f : LastFill) : Nat × FillPromptKind × Bytes × Bool :=
  (f.filledAt, f.kind, f.digest, decide (f.typed ≠ .other))
def FillSeen.digested (digest : Bytes → Bytes) (f : FillSeen) : Nat × FillPromptKind × Bytes × Bool :=
  (f.filledAt, f.kind, digest f.secret, f.onlyEnter)

/-- The state of a guard agrees with its log, and the log with the rules. -/
structure Inv (digest : Bytes → Bytes) (st : GuardState) (log : List GuardEntry) : Prop where
  live : st.liveId = openOffer log
  untouched : st.liveId = untouchedOffer log
  ids : st.nextId.toNat = idAfter (offeredIds log).length
  fill : st.lastFill.map LastFill.seen = (lastFilled log).map (FillSeen.digested digest)
  rejected : ∀ secret ∈ rejectedSecrets log, digest secret ∈ st.rejected
  lawful : Justified GuardLaw log

theorem saturatingSucc_toNat (e : UInt64) :
    (saturatingSucc e).toNat = min (e.toNat + 1) (2 ^ 64 - 1) := by
  have max : (0xFFFFFFFFFFFFFFFF : UInt64).toNat = 2 ^ 64 - 1 := rfl
  have below := e.toNat_lt
  unfold saturatingSucc
  split
  · next isMax =>
    rw [isMax, max]
    omega
  · next notMax =>
    have other : e.toNat ≠ 2 ^ 64 - 1 := fun same => notMax (UInt64.toNat_inj.mp (same.trans max.symm))
    have one : (1 : UInt64).toNat = 1 := rfl
    rw [UInt64.toNat_add, one]
    omega

variable {digest : Bytes → Bytes} {st : GuardState} {log : List GuardEntry} {now : Nat}

theorem withdrawal_eq (st : GuardState) :
    st.withdrawal = (st.liveId.map FillEvent.withdrawn).toList := by
  unfold GuardState.withdrawal GuardState.liveId
  cases current : st.current with
  | none => rfl
  | some p => cases isLive : p.isLive <;> simp [Option.filter, isLive]

theorem Inv.remembered (inv : Inv digest st log) (found : st.lastFill = some f) :
    ∃ fill, lastFilled log = some fill ∧ fill.digested digest = f.seen := by
  have same := inv.fill
  rw [found] at same
  exact map_eq_some_iff.mp same.symm

/-- The rules do not look at the output. -/
theorem Inv.shows (inv : Inv digest st log) (tail : Bytes) (echo : Option EchoMask)
    (holdGen : UInt64) : Inv digest { st with tail, echo, holdGen } log :=
  { inv with }

/-- Nothing is told but the end of the live offer. -/
theorem Inv.withdraws (inv : Inv digest st log) :
    Inv digest { st with current := none } ((st.withdrawal.map (.told now)).reverse ++ log) := by
  rw [withdrawal_eq]
  cases isLive : st.liveId with
  | none =>
    exact { inv with
      live := isLive.symm.trans inv.live, untouched := isLive.symm.trans inv.untouched }
  | some =>
    exact { inv with
      live := rfl, untouched := rfl, lawful := ⟨inv.live.symm.trans isLive, inv.lawful⟩ }

/-- A prompt opens where none was: it is offered, or a refusal. -/
theorem Inv.opens (cfg : Config) (inv : Inv digest { st with current := none } log)
    (kind : FillPromptKind) :
    Inv digest { (st.openInstance cfg kind now).1 with
        current := some (st.openInstance cfg kind now).2.1 }
      (((st.openInstance cfg kind now).2.2.map (.told now)).reverse ++ log) := by
  unfold GuardState.openInstance
  split
  · next fill answered =>
    obtain ⟨found, -⟩ := filter_eq_some_iff.mp answered
    split
    · exact { inv with }
    · obtain ⟨seen, isLast, same⟩ := inv.remembered found
      have isDigest : digest seen.secret = fill.digest := congrArg (fun x => x.2.2.1) same
      refine ⟨inv.live, inv.untouched, inv.ids, ?_, ?_, ?_, inv.lawful⟩
      · have kept := inv.fill
        rw [found] at kept
        exact kept
      · intro secret reported
        have old : ∀ d ∈ st.rejected, d ∈
            if fill.digest ∈ st.rejected then st.rejected else st.rejected ++ [fill.digest] := by
          intro d listed
          split
          · exact listed
          · exact mem_append_left _ listed
        simp only [map_cons, map_nil, reverse_singleton, singleton_append,
          rejectedSecrets, isLast, map_some, toList_some, mem_cons] at reported
        rcases reported with rfl | earlier
        · rw [isDigest]
          split
          · next listed => exact listed
          · exact mem_append_right _ mem_cons_self
        · exact old _ (inv.rejected secret earlier)
      · exact isSome_iff_exists.mpr ⟨_, isLast⟩
  · next unanswered =>
    refine ⟨rfl, rfl, ?_, inv.fill, inv.rejected, ⟨inv.live.symm, inv.ids, ?_⟩, inv.lawful⟩
    · have ids : st.nextId.toNat = idAfter (offeredIds log).length := inv.ids
      change (saturatingSucc st.nextId).toNat = idAfter ((offeredIds log).length + 1)
      rw [saturatingSucc_toNat, ids]
      unfold idAfter
      omega
    · intro seen isLast sameKind onlyEnter
      have kept := inv.fill
      rw [show lastFilled log = some seen from isLast] at kept
      obtain ⟨f, found, same⟩ := map_eq_some_iff.mp kept
      have answers := filter_eq_none_iff.mp unanswered f found
      obtain ⟨isAt, isKind, -, isTyped⟩ : f.filledAt = seen.filledAt ∧ f.kind = seen.kind ∧
          f.digest = digest seen.secret ∧ decide (f.typed ≠ .other) = seen.onlyEnter := by
        simpa [LastFill.seen, FillSeen.digested] using same
      rw [onlyEnter] at isTyped
      simp only [LastFill.answers, isKind, sameKind, isTyped, isAt, decide_true, Bool.true_and,
        decide_eq_true_eq, not_lt] at answers
      exact answers

theorem told_append (now : Nat) (first second : List FillEvent) (log : List GuardEntry) :
    ((first ++ second).map (.told now)).reverse ++ log =
      (second.map (.told now)).reverse ++ ((first.map (.told now)).reverse ++ log) := by
  rw [map_append, reverse_append, append_assoc]

theorem Inv.transitions (cfg : Config) (inv : Inv digest st log) (next : Option FillPromptKind) :
    Inv digest (st.transition cfg next now).1
      (((st.transition cfg next now).2.map (.told now)).reverse ++ log) := by
  have replaced : Inv digest (st.replacePrompt cfg next now).1
      (((st.replacePrompt cfg next now).2.map (.told now)).reverse ++ log) := by
    cases next with
    | none => exact inv.withdraws
    | some kind =>
      unfold GuardState.replacePrompt
      rw [told_append]
      exact inv.withdraws.opens cfg kind
  unfold GuardState.transition
  split
  · exact inv
  · split
    · exact inv
    · exact replaced
  · exact replaced

theorem Inv.observes (text : Unicode) (cfg : Config) (inv : Inv digest st log) (out : Bytes) :
    Inv digest (st.observe text cfg out now).1
      (((st.observe text cfg out now).2.map (.told now)).reverse ++ log) := by
  have pushed : Inv digest (st.pushTail text out) log := by
    unfold GuardState.pushTail
    split
    · exact inv
    · exact inv.shows _ _ _
  unfold GuardState.observe
  by_cases lineEnd : (0x0a : UInt8) ∈ out
  · simp only [lineEnd, if_true, told_append]
    exact (pushed.transitions cfg none).transitions cfg _
  · simp only [lineEnd, if_false, nil_append]
    exact pushed.transitions cfg _

theorem Inv.outputs (text : Unicode) (cfg : Config) (inv : Inv digest st log) (data : Bytes) :
    Inv digest (st.onOutput text cfg data now).1
      (((st.onOutput text cfg data now).2.2.map (.told now)).reverse ++ log) := by
  unfold GuardState.onOutput
  dsimp only
  split
  · exact (inv.shows _ _ _).observes text cfg data
  · next mask masked =>
    rw [told_append]
    refine Inv.observes text cfg ?_ _
    cases (mask.feed data now).2.echoed with
    | false => exact inv.shows _ _ _
    | true =>
      have told : Inv digest st (.told now .echoed :: log) :=
        { inv with lawful := ⟨trivial, inv.lawful⟩ }
      exact told.shows _ _ _

theorem Inv.flushes (text : Unicode) (cfg : Config) (inv : Inv digest st log) :
    Inv digest (st.flushHeld text cfg now).1
      (((st.flushHeld text cfg now).2.2.map (.told now)).reverse ++ log) := by
  unfold GuardState.flushHeld
  dsimp only
  split
  · exact inv.shows _ _ _
  · exact (inv.shows _ _ _).observes text cfg _

theorem Inv.types (inv : Inv digest st log) (typed : isFocusReport data = false) :
    Inv digest (st.noteInput data now).1
      (((st.noteInput data now).2.map (.told now)).reverse ++ .typed data :: log) := by
  have spent : (st.noteInput data now).1.liveId = none := by
    unfold GuardState.noteInput GuardState.liveId
    cases st.current with
    | none => rfl
    | some p =>
      obtain ⟨_, kind, offerable, consumed⟩ := p
      cases offerable <;> cases consumed <;> rfl
  have noted : (st.noteInput data now).1.lastFill.map LastFill.seen =
      (lastFilled (.typed data :: log)).map (FillSeen.digested digest) := by
    let note (seen : Nat × FillPromptKind × Bytes × Bool) :=
      (seen.1, seen.2.1, seen.2.2.1, seen.2.2.2 && data.all isLineEnd)
    have guards : LastFill.seen ∘ (fun f => f.noteInput data) = note ∘ LastFill.seen := by
      funext f
      obtain ⟨_, _, digest, since, _⟩ := f
      cases since <;> cases enter : data.all isLineEnd <;>
        simp [note, LastFill.noteInput, LastFill.seen, enter]
    calc (st.noteInput data now).1.lastFill.map LastFill.seen
        = (st.lastFill.map LastFill.seen).map note := by
          rw [Option.map_map, ← guards, ← Option.map_map]
          rfl
      _ = ((lastFilled log).map (FillSeen.digested digest)).map note := by rw [inv.fill]
      _ = (lastFilled (.typed data :: log)).map (FillSeen.digested digest) := by
          simp only [lastFilled, typed, Bool.false_eq_true, if_false, Option.map_map]
          rfl
  have told : (st.noteInput data now).2 = (st.liveId.map FillEvent.withdrawn).toList :=
    withdrawal_eq st
  have untouched : untouchedOffer (.typed data :: log) = none := by simp [untouchedOffer, typed]
  rw [told]
  cases isLive : st.liveId with
  | none =>
    exact ⟨spent.trans (isLive.symm.trans inv.live), spent.trans untouched.symm, inv.ids, noted,
      inv.rejected, trivial, inv.lawful⟩
  | some =>
    exact ⟨spent, spent, inv.ids, noted, inv.rejected, inv.live.symm.trans isLive, trivial,
      inv.lawful⟩

variable {offerId : UInt64} {secret flushed : Bytes} {st' : GuardState} {events : List FillEvent}

/-- A claim that is refused changes nothing. -/
theorem claim_eq_error {digest : Bytes}
    (refused : st.claim offerId secret digest now = (st', .error why, flushed, events)) :
    st' = st ∧ events = [] := by
  unfold GuardState.claim at refused
  split at refused
  · cases refused
    exact ⟨rfl, rfl⟩
  split at refused
  · cases refused
    exact ⟨rfl, rfl⟩
  · cases refused

/-- A claim that succeeds takes the live offer, for a secret that was not rejected. -/
theorem Inv.claims (inv : Inv digest st log)
    (claimed : st.claim offerId secret (digest secret) now = (st', .ok kind, flushed, events)) :
    Inv digest st' ((events.map (.told now)).reverse ++ .filled now offerId secret kind :: log) := by
  unfold GuardState.claim at claimed
  split at claimed
  · cases claimed
  next offer found =>
  split at claimed
  · cases claimed
  next fresh =>
  cases claimed
  obtain ⟨isCurrent, isLive⟩ := filter_eq_some_iff.mp found
  obtain ⟨isLive, isId⟩ := Bool.and_eq_true_iff.mp isLive
  have live : st.liveId = some offerId := by
    simpa [GuardState.liveId, isCurrent, filter, isLive] using isId
  have spent : GuardState.liveId
      { st with current := st.current.map fun p => { p with consumed := true } } = none := by
    simp [GuardState.liveId, isCurrent, PromptInstance.isLive]
  refine ⟨spent, spent, inv.ids, rfl, inv.rejected, inv.live.symm.trans live, ⟨?_, ?_⟩, inv.lawful⟩
  · exact inv.untouched.symm.trans live
  · exact fun reported => fresh (inv.rejected secret reported)

theorem Inv.act (text : Unicode) (sha256 : Bytes → Bytes) (cfg : Config) (st : GuardState)
    (log : List GuardEntry) (op : GuardOp) (inv : Inv (secretDigest sha256 cfg.digestKey) st log) :
    Inv (secretDigest sha256 cfg.digestKey) (st.act text sha256 cfg op).1
      ((st.act text sha256 cfg op).2.reverse ++ log) := by
  cases op with
  | onOutput data => exact inv.outputs text cfg data
  | flushIdle =>
    unfold GuardState.act
    dsimp only
    split
    · exact inv
    · exact inv.flushes text cfg
  | noteInput =>
    unfold GuardState.act
    dsimp only
    split
    · next focus =>
      refine ⟨inv.live, ?_, inv.ids, ?_, inv.rejected, trivial, inv.lawful⟩
      · simpa [untouchedOffer, focus] using inv.untouched
      · simpa [lastFilled, focus] using inv.fill
    · next typed =>
      rw [reverse_cons, append_assoc]
      exact inv.types (Bool.eq_false_iff.mpr typed)
  | claim =>
    unfold GuardState.act
    dsimp only
    split
    · next claimed =>
      rw [reverse_cons, append_assoc]
      exact inv.claims claimed
    · next refused =>
      obtain ⟨rfl, rfl⟩ := claim_eq_error refused
      exact inv
  | abortFill => exact { inv with fill := rfl, lawful := ⟨trivial, inv.lawful⟩ }
  | close => exact inv.shows _ _ _

theorem Inv.new : Inv digest .new [] :=
  ⟨rfl, rfl, rfl, rfl, nofun, trivial⟩

/-- The ids of fewer than `2 ^ 64` offers count them. -/
theorem offeredIds_pairwise (lawful : Justified GuardLaw log)
    (few : (offeredIds log).length < 2 ^ 64) :
    (∀ id ∈ offeredIds log, id.toNat ≤ (offeredIds log).length) ∧
      (offeredIds log).Pairwise (· > ·) := by
  induction log with
  | nil => exact ⟨nofun, List.Pairwise.nil⟩
  | cons e past ih =>
    obtain ⟨law, before⟩ := lawful
    cases e with
    | told _ event =>
      cases event with
      | offered _ id =>
        have few : (offeredIds past).length + 1 < 2 ^ 64 := few
        obtain ⟨counted, ordered⟩ := ih before (by omega)
        have isNext : id.toNat = (offeredIds past).length + 1 := by
          rw [law.2.1, idAfter]
          omega
        refine ⟨forall_mem_cons.mpr ⟨isNext.le, fun earlier mem => ?_⟩,
          pairwise_cons.mpr ⟨fun earlier mem => ?_, ordered⟩⟩
        · exact Nat.le_succ_of_le (counted earlier mem)
        · exact UInt64.lt_iff_toNat_lt.mpr (isNext ▸ Nat.lt_succ_of_le (counted earlier mem))
      | _ => exact ih before few
    | _ => exact ih before few

/-! ## A call makes at most one offer -/

def FillEvent.isOffer : FillEvent → Bool
  | .offered .. => true
  | _ => false

def GuardEntry.isOffer : GuardEntry → Bool
  | .told _ event => event.isOffer
  | _ => false

theorem offeredIds_append (entries log : List GuardEntry) :
    (offeredIds (entries.reverse ++ log)).length =
      entries.countP GuardEntry.isOffer + (offeredIds log).length := by
  induction entries generalizing log with
  | nil => simp
  | cons entry entries ih =>
    rw [reverse_cons, append_assoc, ih, singleton_append, countP_cons, Nat.add_right_comm,
      Nat.add_assoc]
    congr 1
    cases entry with
    | told _ event => cases event <;> rfl
    | _ => rfl

theorem told_offers (now : Nat) (events : List FillEvent) :
    (events.map (.told now)).countP GuardEntry.isOffer = events.countP FillEvent.isOffer :=
  countP_map

theorem withdrawal_offers (st : GuardState) : st.withdrawal.countP FillEvent.isOffer = 0 := by
  rw [withdrawal_eq]
  cases st.liveId <;> rfl

theorem transition_offers (cfg : Config) (st : GuardState) (next : Option FillPromptKind)
    (now : Nat) : (st.transition cfg next now).2.countP FillEvent.isOffer ≤ next.toList.length := by
  have replaced : (st.replacePrompt cfg next now).2.countP FillEvent.isOffer ≤ next.toList.length := by
    cases next with
    | none => exact (withdrawal_offers st).le
    | some kind =>
      unfold GuardState.replacePrompt
      rw [countP_append, withdrawal_offers, Nat.zero_add]
      unfold GuardState.openInstance
      split
      · split <;> exact Nat.zero_le _
      · exact Nat.le_refl 1
  unfold GuardState.transition
  split
  · exact Nat.zero_le _
  · split
    · exact Nat.zero_le _
    · exact replaced
  · exact replaced

theorem observe_offers (text : Unicode) (cfg : Config) (st : GuardState) (out : Bytes) (now : Nat) :
    (st.observe text cfg out now).2.countP FillEvent.isOffer ≤ 1 := by
  have one (next : Option FillPromptKind) : next.toList.length ≤ 1 := by cases next <;> simp
  unfold GuardState.observe
  by_cases lineEnd : (0x0a : UInt8) ∈ out
  · simp only [lineEnd, if_true, countP_append]
    have left := transition_offers cfg (st.pushTail text out) none now
    exact Nat.add_le_add left ((transition_offers ..).trans (one _))
  · simp only [lineEnd, if_false, nil_append]
    exact (transition_offers ..).trans (one _)

theorem act_offers (text : Unicode) (sha256 : Bytes → Bytes) (cfg : Config) (st : GuardState)
    (op : GuardOp) : (st.act text sha256 cfg op).2.countP GuardEntry.isOffer ≤ 1 := by
  unfold GuardState.act
  cases op with
  | onOutput data now =>
    dsimp only
    rw [told_offers]
    unfold GuardState.onOutput
    dsimp only
    split
    · exact observe_offers ..
    · have unoffered (echoed : Bool) :
          (if echoed then [FillEvent.echoed] else []).countP FillEvent.isOffer = 0 := by
        cases echoed <;> rfl
      rw [countP_append, unoffered, Nat.zero_add]
      exact observe_offers ..
  | flushIdle generation now =>
    dsimp only
    split
    · exact Nat.zero_le _
    · rw [told_offers]
      unfold GuardState.flushHeld
      dsimp only
      split
      · exact Nat.zero_le _
      · exact observe_offers ..
  | noteInput data now =>
    dsimp only
    split
    · exact Nat.zero_le _
    · rw [countP_cons_of_neg Bool.false_ne_true, told_offers]
      exact (withdrawal_offers st).le.trans (Nat.zero_le 1)
  | claim offerId secret now =>
    have unoffered (digest : Bytes) :
        (st.claim offerId secret digest now).2.2.2.countP FillEvent.isOffer = 0 := by
      unfold GuardState.claim
      split
      · rfl
      · split <;> rfl
    have none := unoffered (secretDigest sha256 cfg.digestKey secret)
    dsimp only
    split
    · next claimed =>
      rw [claimed] at none
      rw [countP_cons_of_neg Bool.false_ne_true, told_offers]
      exact none.le.trans (Nat.zero_le 1)
    · next refused =>
      rw [refused] at none
      rw [told_offers]
      exact none.le.trans (Nat.zero_le 1)
  | abortFill => exact Nat.zero_le _
  | close => exact Nat.zero_le _

theorem run_offers (text : Unicode) (sha256 : Bytes → Bytes) (cfg : Config)
    (l : Logged GuardState GuardEntry) (ops : List GuardOp) :
    (offeredIds (Logged.run (GuardState.act text sha256 cfg) l ops).log).length ≤
      (offeredIds l.log).length + ops.length := by
  induction ops generalizing l with
  | nil => exact Nat.le_refl _
  | cons op ops ih =>
    have here := act_offers text sha256 cfg l.state op
    have later := ih (Logged.act (GuardState.act text sha256 cfg) l op)
    rw [Logged.act, offeredIds_append] at later
    rw [length_cons]
    exact later.trans (by omega)

/-- A saved password is typed once for each prompt and never after a rejection. Offers come one at a
time under increasing ids, and not for the prompt of the last fill; a claim needs an offer since
which nothing was withdrawn, filled or typed, and a secret never rejected. -/
theorem saved_password_is_typed_once (text : Unicode) (sha256 : Bytes → Bytes) (cfg : Config)
    (ops : List GuardOp) :
    let st := (guardOf text sha256 cfg ops).state
    let log := (guardOf text sha256 cfg ops).log
    st.liveId = openOffer log ∧ (offeredIds log).length ≤ ops.length ∧
    (ops.length < 2 ^ 64 → (offeredIds log).Pairwise (· > ·)) ∧
    (∀ late now kind id user again past, log = late ++ .told now (.offered kind id user again) :: past →
      openOffer past = none ∧
        ∀ fill, lastFilled past = some fill → fill.kind = kind → fill.onlyEnter = true →
          rejectWindow ≤ now - fill.filledAt) ∧
    (∀ late now id past, log = late ++ .told now (.withdrawn id) :: past → openOffer past = some id) ∧
    (∀ late now id secret kind past, log = late ++ .filled now id secret kind :: past →
      untouchedOffer past = some id ∧ secret ∉ rejectedSecrets past) ∧
    ∀ late now past, log = late ++ .told now .rejected :: past → (lastFilled past).isSome := by
  intro st log
  have inv : Inv (secretDigest sha256 cfg.digestKey) st log :=
    Logged.invariant (Inv.act text sha256 cfg) Inv.new ops
  have lawful : ∀ late e past, log = late ++ e :: past → GuardLaw e past := by
    intro late e past split
    have justified := inv.lawful
    rw [split] at justified
    exact justified.of_append
  have offers : (offeredIds log).length ≤ ops.length := by
    have counted := run_offers text sha256 cfg ⟨.new, []⟩ ops
    exact counted.trans (Nat.zero_add _).le
  refine ⟨inv.live, offers,
    fun few => (offeredIds_pairwise inv.lawful (Nat.lt_of_le_of_lt offers few)).2, ?_, ?_, ?_, ?_⟩
  · intro late now kind id _ _ past split
    have law := lawful late _ past split
    exact ⟨law.1, law.2.2⟩
  · exact fun late now id past split => lawful late _ past split
  · exact fun late now id secret kind past split => lawful late _ past split
  · exact fun late now past split => lawful late _ past split

namespace Sample

/-- Text of one-byte characters. -/
def ascii : Unicode where
  decode bytes := bytes.map fun b => Char.ofNat b.toNat
  lowercase text := text.map Char.toLower
  isControl c := c.toNat < 0x20 || c.toNat = 0x7f
  isWhitespace c := c = ' ' || c = '\t' || c = '\n' || c = '\r'

def alice : Config where
  loginUser := "alice"
  allowGeneric := true
  digestKey := []

/-- A new line that asks for a password. -/
def prompt : Bytes := [0x0a, 0x50, 0x61, 0x73, 0x73, 0x77, 0x6f, 0x72, 0x64, 0x3a]

/-- A password is filled in and asked for again, then something else is typed. -/
def session : List GuardOp :=
  [.onOutput prompt 0, .claim 1 [7] 10, .onOutput prompt 20, .noteInput [0x61] 30,
    .onOutput prompt 40]

end Sample

open Sample (alice session)

/-- A fill is rejected, and its secret not typed again. -/
theorem saved_password_is_typed_once_rejected :
    let log := (guardOf Sample.ascii id alice session).log
    offeredIds log = [2, 1] ∧ rejectedSecrets log = [[7]] ∧ (offeredIds log).Pairwise (· > ·) := by
  obtain ⟨-, -, ordered, -⟩ := saved_password_is_typed_once Sample.ascii id alice session
  exact ⟨by decide +kernel, by decide +kernel, ordered (by decide)⟩

end UniSsh.Terminal
