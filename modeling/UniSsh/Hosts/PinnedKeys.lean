import UniSsh.Hosts.KnownHosts

/-!
# Which servers a connection authenticates to

A connection authenticates to the key it found. That two connections meet the same key needs more:
a first pin overwrites whatever was stored since its lookup.
-/

namespace UniSsh.Hosts

open List Option

variable {fingerprintOpenssh : HostKey → String}

/-! ## Every run -/

/-- What a call at some stage has behind it. -/
def Holds (log : List NetEvent) (c : Nat) : Call → Prop
  | .connect hop _ (.handshake expected) =>
    .lookedUp c hop expected ∈ log ∧ (expected = none → hop.requirePinned = false)
  | .connect hop _ (.pin expected observed) | .connect hop _ (.authenticate expected observed) =>
    .lookedUp c hop expected ∈ log ∧ (expected = none → hop.requirePinned = false) ∧
      .presented c hop observed ∈ log ∧ ∀ pinned, expected = some pinned → observed = pinned
  | _ => True

/-- The rules for an event and what happened before it. -/
def NetLaw : NetEvent → List NetEvent → Prop
  | .authenticated c hop found key, past =>
    .lookedUp c hop found ∈ past ∧ .presented c hop key ∈ past ∧
      (∀ pinned, found = some pinned → key = pinned) ∧ (found = none → hop.requirePinned = false)
  | .pinned c hop key, past =>
    .lookedUp c hop none ∈ past ∧ .presented c hop key ∈ past ∧ hop.requirePinned = false
  | _, _ => True

structure Inv (w : World) (log : List NetEvent) : Prop where
  holds : ∀ c call, w.calls[c]? = some call → Holds log c call
  made : ∀ c hop found key, .authenticated c hop found key ∈ log → c < w.calls.length
  lawful : Justified NetLaw log

variable {log : List NetEvent} {c : Nat} {stored : Addr → Option HostKey} {out : Outcome}
  {w : World} {call : Call} {next : World × List NetEvent}

theorem Holds.mono (holds : Holds log c call) (new : List NetEvent) :
    Holds (new ++ log) c call := by
  unfold Holds at holds ⊢
  split
  · exact ⟨mem_append_right _ holds.1, holds.2⟩
  · exact ⟨mem_append_right _ holds.1, holds.2.1, mem_append_right _ holds.2.2.1, holds.2.2.2⟩
  · exact ⟨mem_append_right _ holds.1, holds.2.1, mem_append_right _ holds.2.2.1, holds.2.2.2⟩
  · trivial

/-- A step leaves its call with what the next stage needs, and its events keep the rules. -/
theorem Moves.holds (moves : Moves fingerprintOpenssh stored c call out) (holds : Holds log c call)
    (lawful : Justified NetLaw log) :
    Holds (out.events.reverse ++ log) c out.call ∧ Justified NetLaw (out.events.reverse ++ log) ∧
      ∀ c' hop found key, .authenticated c' hop found key ∈ out.events → c' = c := by
  cases moves with
  | stays => exact ⟨holds, lawful, by simp⟩
  | ends => exact ⟨trivial, lawful, by simp⟩
  | finds allowed => exact ⟨⟨mem_cons_self, allowed⟩, ⟨trivial, lawful⟩, by simp⟩
  | shakes accepted =>
    exact ⟨⟨mem_cons_of_mem _ holds.1, holds.2, mem_cons_self, accepted⟩,
      ⟨trivial, lawful⟩, by simp⟩
  | pins =>
    exact ⟨⟨mem_cons_of_mem _ holds.1, holds.2.1, mem_cons_of_mem _ holds.2.2.1,
      holds.2.2.2⟩, ⟨⟨holds.1, holds.2.2.1, holds.2.1 rfl⟩, lawful⟩, by simp⟩
  | passes => exact ⟨holds, lawful, by simp⟩
  | arrives | hops =>
    exact ⟨trivial, ⟨⟨holds.1, holds.2.2.1, holds.2.2.2, holds.2.1⟩, lawful⟩, by simp +contextual⟩
  | sees => exact ⟨trivial, lawful, by simp⟩
  | _ => exact ⟨trivial, ⟨trivial, lawful⟩, by simp⟩

theorem Inv.steps (inv : Inv w log) (steps : w.Steps fingerprintOpenssh next) :
    Inv next.1 (next.2.reverse ++ log) := by
  cases steps with
  | stays => exact inv
  | begins fresh =>
    refine ⟨fun c call found => ?_, fun c hop found key done => ?_, inv.lawful⟩
    · rcases of_snoc found with old | ⟨rfl, rfl⟩
      · exact inv.holds c call old
      · rcases fresh with ⟨hop, _, rfl⟩ | ⟨_, _, _, rfl⟩
        · trivial
        · trivial
    · have := inv.made c hop found key done
      simp only [length_append]
      omega
  | moves called moves =>
    obtain ⟨holds, lawful, own⟩ := moves.holds (inv.holds _ _ called) inv.lawful
    refine ⟨fun c call found => ?_, fun c hop found key done => ?_, lawful⟩
    · rcases of_set found with ⟨-, old⟩ | ⟨rfl, rfl⟩
      · exact (inv.holds c call old).mono _
      · exact holds
    · rw [length_set]
      rcases mem_append.mp done with new | old
      · rw [own c hop found key (mem_reverse.mp new)]
        exact (List.getElem?_eq_some_iff.mp called).1
      · exact inv.made c hop found key old
  | imports _ key =>
    refine ⟨fun c call found => (inv.holds c call found).mono [_], fun c hop found key done => ?_,
      trivial, inv.lawful⟩
    exact inv.made c hop found key (by simpa using done)
  | forgets =>
    refine ⟨fun c call found => (inv.holds c call found).mono [_], fun c hop found key done => ?_,
      trivial, inv.lawful⟩
    exact inv.made c hop found key (by simpa using done)

theorem Inv.of_run (fingerprintOpenssh : HostKey → String) (stored : Addr → Option HostKey)
    (ops : List NetOp) :
    Inv (worldOf fingerprintOpenssh stored ops).state (worldOf fingerprintOpenssh stored ops).log :=
  Logged.invariant (fun w _ op inv => inv.steps (w.steps op))
    ⟨fun c call found => by simp at found, fun c hop found key done => by simp at done, trivial⟩ ops

/-! ## Runs where first pins are left alone -/

/-- A connection that found no key at an address and has not pinned one. -/
def Call.awaits (addr : Addr) : Call → Bool
  | .connect hop _ (.handshake none) | .connect hop _ (.pin none _) => hop.addr = addr
  | _ => false

/-- The address a key was stored for, and the connection that pinned it. -/
def NetEvent.storesAt : NetEvent → Option (Option Nat × Addr)
  | .pinned c hop _ => some (some c, hop.addr)
  | .trusted addr _ _ | .imported addr _ => some (none, addr)
  | _ => none

/-- No connection but the one that pins awaits its first pin where this event stored a key. -/
def NetEvent.apart (calls : List Call) (e : NetEvent) : Bool :=
  match e.storesAt with
  | some (writer, addr) =>
    calls.zipIdx.all fun entry => writer = some entry.2 || !entry.1.awaits addr
  | none => true

/-- No key is stored for an address while another connection there awaits its first pin. -/
def Apart (fingerprintOpenssh : HostKey → String) (w : World) (op : NetOp) : Prop :=
  ((w.act fingerprintOpenssh op).2.all (NetEvent.apart w.calls)) = true

instance (fingerprintOpenssh : HostKey → String) (w : World) (op : NetOp) :
    Decidable (Apart fingerprintOpenssh w op) :=
  inferInstanceAs (Decidable (_ = true))

/-- Where a connection awaits its first pin, no key is stored. -/
def Unpinned (w : World) : Prop :=
  ∀ (c : Nat) call addr, w.calls[c]? = some call → call.awaits addr = true →
    w.stored addr = none

variable {addr : Addr}

theorem NetEvent.apart.other {e : NetEvent} (apart : e.apart calls = true)
    (stores : e.storesAt = some (writer, addr)) (listed : calls[c]? = some call)
    (other : writer ≠ some c) : call.awaits addr = false := by
  unfold NetEvent.apart at apart
  rw [stores] at apart
  have entry := all_eq_true.mp apart (call, c) (mk_mem_zipIdx_iff_getElem?.mpr listed)
  simpa [other] using entry

/-- A connection awaits its pin because it did before, or because it found nothing. -/
theorem Moves.awaits (moves : Moves fingerprintOpenssh stored c call out)
    (awaits : out.call.awaits addr = true) :
    out.stores = none ∧ (call.awaits addr = true ∨ stored addr = none) := by
  cases moves with
  | stays => exact ⟨rfl, .inl awaits⟩
  | @finds hop later allowed =>
    cases found : stored hop.addr with
    | some =>
      rw [found] at awaits
      cases awaits
    | none =>
      rw [found] at awaits
      exact ⟨rfl, .inr (of_decide_eq_true awaits ▸ found)⟩
  | @shakes hop later expected observed accepted =>
    cases expected with
    | none => exact ⟨rfl, .inl awaits⟩
    | some => cases awaits
  | _ => cases awaits

variable {key : HostKey}

/-- What is stored shows in the events, and the connection that pins awaits no more. -/
theorem Moves.stores (moves : Moves fingerprintOpenssh stored c call out)
    (stores : out.stores = some (addr, key)) :
    (∃ hop, out.events = [.pinned c hop key] ∧ hop.addr = addr ∧ call.awaits addr = true) ∨
      out.events = [.trusted addr key (fingerprintOpenssh key)] := by
  cases moves with
  | @pins hop later observed =>
    cases stores
    exact .inl ⟨hop, rfl, rfl, decide_eq_true rfl⟩
  | trusts =>
    cases stores
    exact .inr rfl
  | _ => cases stores

/-- Why the key stored for an address changed. -/
inductive Changed (fingerprintOpenssh : HostKey → String) (w : World) (addr : Addr) :
    World × List NetEvent → Prop
  | pinned {next : World × List NetEvent} {c : Nat} {hop : ConnectOptions} {key : HostKey}
      (event : next.2 = [.pinned c hop key]) (isAddr : hop.addr = addr) (first : w.stored addr = none)
      (isKey : next.1.stored addr = some key) : Changed fingerprintOpenssh w addr next
  | forgot {next : World × List NetEvent} (event : next.2 = [.forgot addr]) :
      Changed fingerprintOpenssh w addr next
  | imported {next : World × List NetEvent} {key : HostKey} (event : next.2 = [.imported addr key]) :
      Changed fingerprintOpenssh w addr next
  | trusted {next : World × List NetEvent} {key : HostKey} {fingerprint : String}
      (event : next.2 = [.trusted addr key fingerprint])
      (isPrint : fingerprintOpenssh key = fingerprint) (isKey : next.1.stored addr = some key) :
      Changed fingerprintOpenssh w addr next

theorem store_other (other : ∀ key, put ≠ some (addr, key)) :
    w.store put addr = w.stored addr := by
  unfold World.store
  split
  · next key =>
    refine Function.update_of_ne (fun same => other key ?_) _ _
    rw [same]
  · rfl

theorem changed_of_steps (unpinned : Unpinned w) (steps : w.Steps fingerprintOpenssh next)
    (changed : next.1.stored addr ≠ w.stored addr) : Changed fingerprintOpenssh w addr next := by
  cases steps with
  | stays | begins => exact absurd rfl changed
  | @moves c call out called moves =>
    by_cases stores : ∃ key, out.stores = some (addr, key)
    · obtain ⟨key, stores⟩ := stores
      have isKey : w.store out.stores addr = some key := by
        rw [stores]
        exact Function.update_self _ _ _
      rcases moves.stores stores with ⟨_, event, isAddr, awaits⟩ | event
      · exact .pinned event isAddr (unpinned c call addr called awaits) isKey
      · exact .trusted event rfl isKey
    · exact absurd (store_other fun key same => stores ⟨key, same⟩) changed
  | imports at' =>
    by_cases same : at' = addr
    · subst same
      exact .imported rfl
    · exact absurd (store_other fun key' put => same (Prod.mk.inj (some.inj put)).1) changed
  | forgets at' =>
    by_cases same : at' = addr
    · subst same
      exact .forgot rfl
    · exact absurd (Function.update_of_ne (Ne.symm same) _ _) changed

theorem Unpinned.steps (unpinned : Unpinned w) (apart : next.2.all (NetEvent.apart w.calls) = true)
    (steps : w.Steps fingerprintOpenssh next) : Unpinned next.1 := by
  intro i found addr listed awaits
  -- A key stored for the address would have been kept apart from this connection.
  have lone : ∀ {e : NetEvent} {writer : Option Nat}, next.2 = [e] →
      e.storesAt = some (writer, addr) → writer ≠ some i → w.calls[i]? ≠ some found := by
    intro e _ event stores other old
    rw [event] at apart
    have free := NetEvent.apart.other (by simpa using apart) stores old other
    rw [free] at awaits
    cases awaits
  cases steps with
  | stays => exact unpinned i found addr listed awaits
  | begins fresh =>
    rcases of_snoc listed with old | ⟨-, rfl⟩
    · exact unpinned i found addr old awaits
    · rcases fresh with ⟨hop, _, rfl⟩ | ⟨_, _, _, rfl⟩
      · cases awaits
      · cases awaits
  | @moves c call out called moves =>
    rcases of_set listed with ⟨other, old⟩ | ⟨rfl, rfl⟩
    · by_cases stores : ∃ key, out.stores = some (addr, key)
      · obtain ⟨key, stores⟩ := stores
        rcases moves.stores stores with ⟨_, event, isAddr, -⟩ | event
        · exact absurd old (lone event (isAddr ▸ rfl) fun same => other (some.inj same).symm)
        · exact absurd old (lone event rfl (by simp))
      · exact (store_other fun key same => stores ⟨key, same⟩).trans
          (unpinned i found addr old awaits)
    · obtain ⟨nothing, before⟩ := moves.awaits awaits
      have same : w.store out.stores addr = w.stored addr := by
        rw [nothing]
        rfl
      refine same.trans (before.elim (unpinned i call addr called) ?_)
      exact fun absent => absent
  | imports stored =>
    by_cases same : stored = addr
    · subst same
      exact absurd listed (lone rfl rfl (by simp))
    · exact (store_other fun key' put => same (Prod.mk.inj (some.inj put)).1).trans
        (unpinned i found addr listed awaits)
  | forgets gone =>
    by_cases same : addr = gone
    · subst same
      exact Function.update_self _ _ _
    · exact (Function.update_of_ne same _ _).trans (unpinned i found addr listed awaits)

/-! ## One key for each address -/

/-- A key was forgotten, imported or trusted at an address. -/
def NetEvent.repins (addr : Addr) : NetEvent → Bool
  | .forgot at' | .imported at' _ | .trusted at' _ _ => at' = addr
  | _ => false

/-- No operation forgets, imports or trusts a key at an address. -/
def Quiet (fingerprintOpenssh : HostKey → String) (addr : Addr) (w : World) (op : NetOp) : Prop :=
  ((w.act fingerprintOpenssh op).2.any (NetEvent.repins addr)) = false

instance (fingerprintOpenssh : HostKey → String) (addr : Addr) (w : World) (op : NetOp) :
    Decidable (Quiet fingerprintOpenssh addr w op) :=
  inferInstanceAs (Decidable (_ = false))

/-- A connection at an address that goes on with a key. -/
def Call.Meets (addr : Addr) (key : HostKey) : Call → Prop
  | .connect hop _ (.handshake (some pinned)) | .connect hop _ (.pin (some pinned) _) =>
    hop.addr = addr ∧ pinned = key
  | .connect hop _ (.authenticate _ observed) => hop.addr = addr ∧ observed = key
  | _ => False

/-- The connections from some call on meet the stored key, and so did those that authenticated. -/
structure Single (first : Nat) (addr : Addr) (w : World) (log : List NetEvent) : Prop where
  meets : ∀ (c : Nat) call key, first ≤ c → w.calls[c]? = some call →
    call.Meets addr key → w.stored addr = some key
  met : ∀ c hop found key, first ≤ c → .authenticated c hop found key ∈ log → hop.addr = addr →
    w.stored addr = some key

/-- What a connection meets it met before, was found, or is pinned. -/
theorem Moves.meets (moves : Moves fingerprintOpenssh stored c call out) (holds : Holds log c call)
    (meets : out.call.Meets addr key) :
    call.Meets addr key ∨ stored addr = some key ∨ out.stores = some (addr, key) := by
  cases moves with
  | stays => exact .inl meets
  | @finds hop later allowed =>
    cases found : stored hop.addr with
    | none =>
      rw [found] at meets
      exact meets.elim
    | some =>
      rw [found] at meets
      obtain ⟨rfl, rfl⟩ := meets
      exact .inr (.inl found)
  | @shakes hop later expected observed accepted =>
    cases expected with
    | none => exact meets.elim
    | some => exact .inl meets
  | pins =>
    obtain ⟨rfl, rfl⟩ := meets
    exact .inr (.inr rfl)
  | passes =>
    obtain ⟨isAddr, rfl⟩ := meets
    exact .inl ⟨isAddr, (holds.2.2.2 _ rfl).symm⟩
  | _ => exact meets.elim

theorem Moves.met (moves : Moves fingerprintOpenssh stored c call out)
    (done : .authenticated c' hop found key ∈ out.events) : c' = c ∧ call.Meets hop.addr key := by
  cases moves with
  | arrives | hops =>
    cases mem_singleton.mp done
    exact ⟨rfl, rfl, rfl⟩
  | _ => simp at done

theorem Single.steps {first : Nat} (single : Single first addr w log) (inv : Inv w log)
    (unpinned : Unpinned w) (quiet : next.2.any (NetEvent.repins addr) = false)
    (steps : w.Steps fingerprintOpenssh next) :
    Single first addr next.1 (next.2.reverse ++ log) := by
  have kept : ∀ key, w.stored addr = some key → next.1.stored addr = some key := by
    intro key stored
    by_contra lost
    have changed : next.1.stored addr ≠ w.stored addr := fun same => lost (same.trans stored)
    cases changed_of_steps unpinned steps changed with
    | pinned _ _ isFirst => cases stored.symm.trans isFirst
    | forgot event | imported event | trusted event =>
      rw [event] at quiet
      simp [NetEvent.repins] at quiet
  cases steps with
  | stays => exact single
  | begins fresh =>
    refine ⟨fun c call key late listed meets => ?_, single.met⟩
    rcases of_snoc listed with old | ⟨-, rfl⟩
    · exact single.meets c call key late old meets
    · rcases fresh with ⟨hop, _, rfl⟩ | ⟨_, _, _, rfl⟩
      · exact meets.elim
      · exact meets.elim
  | @moves c call out called moves =>
    refine ⟨fun i found key late listed meets => ?_, fun i hop found key late done isAddr => ?_⟩
    · rcases of_set listed with ⟨-, old⟩ | ⟨rfl, rfl⟩
      · exact kept key (single.meets i found key late old meets)
      · rcases moves.meets (inv.holds i call called) meets with before | stored | stores
        · exact kept key (single.meets i call key late called before)
        · exact kept key stored
        · change w.store out.stores addr = some key
          rw [stores]
          exact Function.update_self _ _ _
    · refine kept key ?_
      rcases mem_append.mp done with new | old
      · obtain ⟨rfl, meets⟩ := moves.met (mem_reverse.mp new)
        exact single.meets i call key late called (isAddr ▸ meets)
      · exact single.met i hop found key late old isAddr
  | imports _ key =>
    refine ⟨fun i found key late listed meets => kept key (single.meets i found key late listed meets),
      fun i hop found key late done isAddr => kept key (single.met i hop found key late ?_ isAddr)⟩
    simpa using done
  | forgets =>
    refine ⟨fun i found key late listed meets => kept key (single.meets i found key late listed meets),
      fun i hop found key late done isAddr => kept key (single.met i hop found key late ?_ isAddr)⟩
    simpa using done

section Runs

variable {stored : Addr → Option HostKey}

theorem Unpinned.of_run
    (apart : Logged.Each (World.act fingerprintOpenssh) (Apart fingerprintOpenssh)
      { stored, calls := [] } ops) :
    Unpinned (worldOf fingerprintOpenssh stored ops).state := by
  have kept : ∀ (w : World) (log : List NetEvent) op, Apart fingerprintOpenssh w op → Unpinned w →
      Unpinned (w.act fingerprintOpenssh op).1 :=
    fun w _ op apart unpinned => unpinned.steps apart (w.steps op)
  exact Logged.Each.invariant kept (fun c call addr listed => by simp at listed) apart

/-- Connections at an address meet one key while none is forgotten, imported or trusted there. -/
theorem Single.of_run (apart : Logged.Each (World.act fingerprintOpenssh) (Apart fingerprintOpenssh)
      { stored, calls := [] } (before ++ during))
    (quiet : Logged.Each (World.act fingerprintOpenssh) (Quiet fingerprintOpenssh addr)
      (worldOf fingerprintOpenssh stored before).state during) :
    Single (worldOf fingerprintOpenssh stored before).state.calls.length addr
      (worldOf fingerprintOpenssh stored (before ++ during)).state
      (worldOf fingerprintOpenssh stored (before ++ during)).log := by
  have inv := Inv.of_run fingerprintOpenssh stored before
  obtain ⟨apartBefore, apartDuring⟩ := Logged.Each.of_append ⟨(⟨stored, []⟩ : World), []⟩ apart
  let whole (w : World) (log : List NetEvent) := Inv w log ∧ Unpinned w ∧
    Single (worldOf fingerprintOpenssh stored before).state.calls.length addr w log
  have kept : ∀ w log op,
      Apart fingerprintOpenssh w op ∧ Quiet fingerprintOpenssh addr w op → whole w log →
      whole (w.act fingerprintOpenssh op).1 ((w.act fingerprintOpenssh op).2.reverse ++ log) := by
    rintro w _ op ⟨apart, quiet⟩ ⟨inv, unpinned, single⟩
    have steps : w.Steps fingerprintOpenssh (w.act fingerprintOpenssh op) := w.steps op
    exact ⟨inv.steps steps, unpinned.steps apart steps, single.steps inv unpinned quiet steps⟩
  -- No call of the later part exists yet, so none met anything.
  have start : whole (worldOf fingerprintOpenssh stored before).state
      (worldOf fingerprintOpenssh stored before).log := by
    refine ⟨inv, Unpinned.of_run apartBefore, fun c call key late listed => ?_, ?_⟩
    · exact absurd (List.getElem?_eq_some_iff.mp listed).1 (Nat.not_lt.mpr late)
    · intro c hop found key late done
      exact absurd (inv.made c hop found key done) (Nat.not_lt.mpr late)
  have done := Logged.Each.invariant kept start (apartDuring.and quiet)
  have following : worldOf fingerprintOpenssh stored (before ++ during) =
      Logged.run (World.act fingerprintOpenssh) (worldOf fingerprintOpenssh stored before) during :=
    Logged.run_append before during
  rw [following]
  exact done.2.2

/-- A connection authenticates to the key it found, and to none only where none is required. Where
first pins do not overlap, a stored key changes only by a first pin, or one forgotten, imported or
trusted. -/
theorem pinned_key_stays_when_apart (fingerprintOpenssh : HostKey → String)
    (stored : Addr → Option HostKey) (ops : List NetOp) :
    let log := (worldOf fingerprintOpenssh stored ops).log
    (∀ late c hop found key past, log = late ++ .authenticated c hop found key :: past →
      .lookedUp c hop found ∈ past ∧ .presented c hop key ∈ past ∧
        (∀ pinned, found = some pinned → key = pinned) ∧
        (found = none → hop.requirePinned = false)) ∧
    (∀ late c hop key past, log = late ++ .pinned c hop key :: past →
      .lookedUp c hop none ∈ past ∧ .presented c hop key ∈ past ∧ hop.requirePinned = false) ∧
    (Logged.Each (World.act fingerprintOpenssh) (Apart fingerprintOpenssh)
        { stored, calls := [] } ops →
      (∀ before op after, ops = before ++ op :: after → ∀ addr,
        let w := (worldOf fingerprintOpenssh stored before).state
        (w.act fingerprintOpenssh op).1.stored addr ≠ w.stored addr →
          Changed fingerprintOpenssh w addr (w.act fingerprintOpenssh op)) ∧
      ∀ before during addr, ops = before ++ during →
        let w := (worldOf fingerprintOpenssh stored before).state
        Logged.Each (World.act fingerprintOpenssh) (Quiet fingerprintOpenssh addr) w during →
        ∀ c hop found key c' hop' found' key', w.calls.length ≤ c → w.calls.length ≤ c' →
          .authenticated c hop found key ∈ log → .authenticated c' hop' found' key' ∈ log →
          hop.addr = addr → hop'.addr = addr → key = key') := by
  intro log
  have lawful : ∀ late e past, log = late ++ e :: past → NetLaw e past := by
    intro late e past split
    have justified : Justified NetLaw log := (Inv.of_run fingerprintOpenssh stored ops).lawful
    rw [split] at justified
    exact justified.of_append
  refine ⟨?_, ?_, fun apart => ⟨?_, ?_⟩⟩
  · exact fun late c hop found key past split => lawful late _ past split
  · exact fun late c hop key past split => lawful late _ past split
  · rintro before op _ rfl addr w changed
    have unpinned : Unpinned w :=
      Unpinned.of_run (Logged.Each.of_append ⟨(⟨stored, []⟩ : World), []⟩ apart).1
    exact changed_of_steps unpinned (w.steps op) changed
  · rintro _ _ _ rfl w quiet c hop found key c' hop' found' key' late late' done done'
      isAddr isAddr'
    have single := Single.of_run apart quiet
    have one := single.met c hop found key late done isAddr
    have other := single.met c' hop' found' key' late' done' isAddr'
    exact some.inj (one.symm.trans other)

end Runs

/-! ## Two first connections -/

namespace Sample

def server : ConnectOptions where
  host := "host"
  port := 22
  requirePinned := false

/-- Both connections find no key, and meet different servers. -/
def race : List NetOp :=
  [.connectThrough [] server, .connectThrough [] server, .step 0 .get, .step 1 .get,
    .step 0 (.present (.key [1])), .step 0 .put, .step 0 .authenticate,
    .step 1 (.present (.key [2])), .step 1 .put, .step 1 .authenticate]

/-- One connection after the other. -/
def inTurn : List NetOp :=
  [.connectThrough [] server, .step 0 .get, .step 0 (.present (.key [1])), .step 0 .put,
    .step 0 .authenticate, .connectThrough [] server, .step 1 .get, .step 1 (.present (.key [1])),
    .step 1 .put, .step 1 .authenticate]

end Sample

open Sample

/-- Two connections in turn meet one key. -/
theorem pinned_key_stays_in_turn :
    let log := (worldOf (fun _ => "") (fun _ => none) inTurn).log
    .authenticated 0 server none [1] ∈ log ∧ ∀ c hop found key c' hop' found' key',
      .authenticated c hop found key ∈ log → .authenticated c' hop' found' key' ∈ log →
      hop.addr = server.addr → hop'.addr = server.addr → key = key' := by
  refine ⟨by decide, fun c hop found key c' hop' found' key' => ?_⟩
  have all := pinned_key_stays_when_apart (fun _ => "") (fun _ => none) inTurn
  exact (all.2.2 (by decide)).2 [] inTurn server.addr rfl (by decide) c hop found key c' hop'
    found' key' (Nat.zero_le _) (Nat.zero_le _)

/-- Two first connections authenticate to different keys, and the second pins over the first. -/
theorem first_connections_race :
    let after := worldOf (fun _ => "") (fun _ => none)
    .authenticated 0 server none [1] ∈ (after race).log ∧
      .authenticated 1 server none [2] ∈ (after race).log ∧
      (∀ e ∈ (after race).log, e.repins server.addr = false) ∧
      (after (race.take 8)).state.stored server.addr = some [1] ∧
      (after (race.take 9)).state.stored server.addr = some [2] := by
  decide

end UniSsh.Hosts
