import Mathlib.Logic.Function.Basic
import UniSsh.Base.Bytes
import UniSsh.Base.Logged

/-!
# Pinned host keys

A connection looks up the pinned key, shakes hands, pins the key shown if none was pinned, and
then authenticates, at every hop. Anything may happen between its lookup and its pin.
-/

namespace UniSsh.Hosts

/-- A host key in its OpenSSH form. -/
abbrev HostKey := Bytes

/-- A host, in lower case, and a port. -/
abbrev Addr := String × UInt16

def toAsciiLowercase (host : String) : String := String.ofList (host.toList.map Char.toLower)

def addrOf (host : String) (port : UInt16) : Addr := (toAsciiLowercase host, port)

/-- What a server presents: a key, one that has no OpenSSH form, or a certificate. -/
inductive ServerKey where
  | key (openssh : HostKey)
  | unencodable
  | certificate

inductive TransportError where
  | hostUntrusted
  | hostKeyMismatch (host : String) (port : UInt16) (fingerprint : String)
  | fingerprintMismatch (expected got : String)
  | other (message : String)

/-- What a connection is asked to reach. -/
structure ConnectOptions where
  host : String
  port : UInt16
  requirePinned : Bool
  deriving DecidableEq

def ConnectOptions.addr (opts : ConnectOptions) : Addr := addrOf opts.host opts.port

/-- Where a connection is at a hop, with the key found and the key presented. -/
inductive Stage where
  | get
  | handshake (expected : Option HostKey)
  | pin (expected : Option HostKey) (observed : HostKey)
  | authenticate (expected : Option HostKey) (observed : HostKey)

/-- A call: a connection at some hop with more to come, a key to be trusted anew, or one that
returned. -/
inductive Call where
  | connect (hop : ConnectOptions) (later : List ConnectOptions) (stage : Stage)
  | trust (host : String) (port : UInt16) (fingerprint : String) (observed : Option HostKey)
  | ended (result : Except TransportError Unit)

/-- What a call can do next. -/
inductive CallOp where
  | get
  | present (key : ServerKey)
  | put
  | authenticate
  | fail (message : String)

inductive NetEvent where
  | lookedUp (call : Nat) (hop : ConnectOptions) (found : Option HostKey)
  | presented (call : Nat) (hop : ConnectOptions) (key : HostKey)
  | pinned (call : Nat) (hop : ConnectOptions) (key : HostKey)
  | authenticated (call : Nat) (hop : ConnectOptions) (found : Option HostKey) (key : HostKey)
  | trusted (addr : Addr) (key : HostKey) (fingerprint : String)
  | imported (addr : Addr) (key : HostKey)
  | forgot (addr : Addr)
  deriving DecidableEq

/-- The key that was observed, if any, and whether it is accepted. Certificates are not. -/
def checkServerKey (expected : Option HostKey) : ServerKey → Option HostKey × Bool
  | .certificate | .unencodable => (none, false)
  | .key bytes =>
    (some bytes, match expected with
      | some pinned => decide (pinned = bytes)
      | none => true)

section Steps

variable (fingerprintOpenssh : HostKey → String)

def classifyConnectError (e : TransportError) (hop : ConnectOptions)
    (expected observed : Option HostKey) : TransportError :=
  match expected, observed with
  | some pinned, some seen =>
    if seen ≠ pinned then .hostKeyMismatch hop.host hop.port (fingerprintOpenssh seen) else e
  | _, _ => e

/-- What becomes of a call that takes a step, the key it stores, and what happened. -/
structure Outcome where
  call : Call
  stores : Option (Addr × HostKey)
  events : List NetEvent

/-- A step of a call where these keys are stored; any other than its next changes nothing. -/
def Call.step (stored : Addr → Option HostKey) (c : Nat) (call : Call) (op : CallOp) : Outcome :=
  match call, op with
  | .connect hop later .get, .get =>
    let expected := stored hop.addr
    if hop.requirePinned && expected.isNone then
      ⟨.ended (.error .hostUntrusted), none, [.lookedUp c hop expected]⟩
    else ⟨.connect hop later (.handshake expected), none, [.lookedUp c hop expected]⟩
  | .connect hop later (.handshake expected), .present key =>
    match checkServerKey expected key with
    | (some observed, true) =>
      ⟨.connect hop later (.pin expected observed), none, [.presented c hop observed]⟩
    | (observed, _) =>
      ⟨.ended (.error (classifyConnectError fingerprintOpenssh (.other "handshake") hop expected
        observed)), none, []⟩
  | .connect hop later (.pin none observed), .put =>
    ⟨.connect hop later (.authenticate none observed), some (hop.addr, observed),
      [.pinned c hop observed]⟩
  | .connect hop later (.pin (some pinned) observed), .put =>
    ⟨.connect hop later (.authenticate (some pinned) observed), none, []⟩
  | .connect hop later (.authenticate expected observed), .authenticate =>
    ⟨match later with
      | [] => .ended (.ok ())
      | next :: rest => .connect next rest .get,
      none, [.authenticated c hop expected observed]⟩
  | .trust host port fingerprint none, .present key =>
    match checkServerKey none key with
    | (some observed, true) => ⟨.trust host port fingerprint (some observed), none, []⟩
    | _ => ⟨.ended (.error (.other "handshake")), none, []⟩
  | .trust host port fingerprint (some observed), .put =>
    -- The key is compared with the confirmed fingerprint, then stored over the old one.
    if fingerprintOpenssh observed = fingerprint then
      ⟨.ended (.ok ()), some (addrOf host port, observed),
        [.trusted (addrOf host port) observed fingerprint]⟩
    else
      ⟨.ended (.error (.fingerprintMismatch fingerprint (fingerprintOpenssh observed))), none, []⟩
  | .connect _ _ _, .fail message | .trust _ _ _ _, .fail message =>
    ⟨.ended (.error (.other message)), none, []⟩
  | call, _ => ⟨call, none, []⟩

/-- The keys that are stored and the calls that were made. -/
structure World where
  stored : Addr → Option HostKey
  calls : List Call

inductive NetOp where
  | connectThrough (chain : List ConnectOptions) (target : ConnectOptions)
  | trustHostKey (host : String) (port : UInt16) (fingerprint : String)
  | step (call : Nat) (op : CallOp)
  | importKnownHost (host : String) (port : UInt16) (key : HostKey)
  | forget (host : String) (port : UInt16)

/-- The call of a connection through a chain. -/
def connectThrough (chain : List ConnectOptions) (target : ConnectOptions) : Call :=
  match chain with
  | [] => .connect target [] .get
  | first :: later => .connect first (later ++ [target]) .get

namespace World

variable (w : World)

def store (put : Option (Addr × HostKey)) : Addr → Option HostKey :=
  match put with
  | some (addr, key) => Function.update w.stored addr (some key)
  | none => w.stored

def act : NetOp → World × List NetEvent
  | .connectThrough chain target =>
    ({ w with calls := w.calls ++ [Hosts.connectThrough chain target] }, [])
  | .trustHostKey host port fingerprint =>
    ({ w with calls := w.calls ++ [.trust host port fingerprint none] }, [])
  | .step c op =>
    match w.calls[c]? with
    | some call =>
      let out := call.step fingerprintOpenssh w.stored c op
      ({ stored := w.store out.stores, calls := w.calls.set c out.call }, out.events)
    | none => (w, [])
  | .importKnownHost host port key =>
    ({ w with stored := w.store (some (addrOf host port, key)) },
      [.imported (addrOf host port) key])
  | .forget host port =>
    ({ w with stored := Function.update w.stored (addrOf host port) none },
      [.forgot (addrOf host port)])

end World

/-- The world after some operations, from given stored keys. -/
def worldOf (stored : Addr → Option HostKey) (ops : List NetOp) : Logged World NetEvent :=
  Logged.run (World.act fingerprintOpenssh) { state := { stored, calls := [] }, log := [] } ops

end Steps

/-! ## What a step of a call can do -/

variable {fingerprintOpenssh : HostKey → String}

/-- The steps of a call. -/
inductive Moves (fingerprintOpenssh : HostKey → String) (stored : Addr → Option HostKey) (c : Nat) :
    Call → Outcome → Prop
  | stays (call : Call) : Moves fingerprintOpenssh stored c call ⟨call, none, []⟩
  | ends (call : Call) (result : Except TransportError Unit) :
      Moves fingerprintOpenssh stored c call ⟨.ended result, none, []⟩
  | refused {hop : ConnectOptions} {later : List ConnectOptions}
      (result : Except TransportError Unit) :
      Moves fingerprintOpenssh stored c (.connect hop later .get)
        ⟨.ended result, none, [.lookedUp c hop (stored hop.addr)]⟩
  | finds {hop : ConnectOptions} {later : List ConnectOptions}
      (allowed : stored hop.addr = none → hop.requirePinned = false) :
      Moves fingerprintOpenssh stored c (.connect hop later .get)
        ⟨.connect hop later (.handshake (stored hop.addr)), none,
          [.lookedUp c hop (stored hop.addr)]⟩
  | shakes {hop : ConnectOptions} {later : List ConnectOptions} {expected : Option HostKey}
      {observed : HostKey} (accepted : ∀ pinned, expected = some pinned → observed = pinned) :
      Moves fingerprintOpenssh stored c (.connect hop later (.handshake expected))
        ⟨.connect hop later (.pin expected observed), none, [.presented c hop observed]⟩
  | pins {hop : ConnectOptions} {later : List ConnectOptions} {observed : HostKey} :
      Moves fingerprintOpenssh stored c (.connect hop later (.pin none observed))
        ⟨.connect hop later (.authenticate none observed), some (hop.addr, observed),
          [.pinned c hop observed]⟩
  | passes {hop : ConnectOptions} {later : List ConnectOptions} {pinned observed : HostKey} :
      Moves fingerprintOpenssh stored c (.connect hop later (.pin (some pinned) observed))
        ⟨.connect hop later (.authenticate (some pinned) observed), none, []⟩
  | arrives {hop : ConnectOptions} {expected : Option HostKey} {observed : HostKey} :
      Moves fingerprintOpenssh stored c (.connect hop [] (.authenticate expected observed))
        ⟨.ended (.ok ()), none, [.authenticated c hop expected observed]⟩
  | hops {hop next : ConnectOptions} {rest : List ConnectOptions} {expected : Option HostKey}
      {observed : HostKey} :
      Moves fingerprintOpenssh stored c (.connect hop (next :: rest) (.authenticate expected observed))
        ⟨.connect next rest .get, none, [.authenticated c hop expected observed]⟩
  | sees {host : String} {port : UInt16} {fingerprint : String} (observed : HostKey) :
      Moves fingerprintOpenssh stored c (.trust host port fingerprint none)
        ⟨.trust host port fingerprint (some observed), none, []⟩
  | trusts {host : String} {port : UInt16} {observed : HostKey} :
      Moves fingerprintOpenssh stored c
        (.trust host port (fingerprintOpenssh observed) (some observed))
        ⟨.ended (.ok ()), some (addrOf host port, observed),
          [.trusted (addrOf host port) observed (fingerprintOpenssh observed)]⟩

/-- An accepted key is the expected one. -/
theorem checkServerKey_accepts (accepted : checkServerKey expected key = (some observed, true)) :
    ∀ pinned, expected = some pinned → observed = pinned := by
  rintro _ rfl
  cases key with
  | key =>
    cases (Prod.mk.inj accepted).1
    exact (of_decide_eq_true (Prod.mk.inj accepted).2).symm
  | _ => cases accepted

theorem Call.moves (stored : Addr → Option HostKey) (c : Nat) (call : Call) (op : CallOp) :
    Moves fingerprintOpenssh stored c call (call.step fingerprintOpenssh stored c op) := by
  unfold Call.step
  split
  · next =>
    dsimp only
    split
    · exact .refused _
    · next allowed =>
      refine .finds fun absent => ?_
      simpa [absent] using allowed
  · split
    · next accepted => exact .shakes (checkServerKey_accepts accepted)
    · exact .ends _ _
  · exact .pins
  · exact .passes
  · next later _ _ =>
    cases later with
    | nil => exact .arrives
    | cons => exact .hops
  · split
    · exact .sees _
    · exact .ends _ _
  · split
    · next same =>
      subst same
      exact .trusts
    · exact .ends _ _
  · exact .ends _ _
  · exact .ends _ _
  · exact .stays _

/-- A call that has not taken a step. -/
def Call.Fresh (call : Call) : Prop :=
  (∃ hop later, call = .connect hop later .get) ∨
    ∃ host port fingerprint, call = .trust host port fingerprint none

/-- A call begins or takes a step, a key is imported or forgotten, or nothing happens. -/
inductive World.Steps (fingerprintOpenssh : HostKey → String) (w : World) :
    World × List NetEvent → Prop
  | stays : World.Steps fingerprintOpenssh w (w, [])
  | begins {call : Call} (fresh : call.Fresh) :
      World.Steps fingerprintOpenssh w ({ w with calls := w.calls ++ [call] }, [])
  | moves {c : Nat} {call : Call} {out : Outcome} (called : w.calls[c]? = some call)
      (moves : Moves fingerprintOpenssh w.stored c call out) :
      World.Steps fingerprintOpenssh w
        ({ stored := w.store out.stores, calls := w.calls.set c out.call }, out.events)
  | imports (addr : Addr) (key : HostKey) :
      World.Steps fingerprintOpenssh w
        ({ w with stored := w.store (some (addr, key)) }, [.imported addr key])
  | forgets (addr : Addr) :
      World.Steps fingerprintOpenssh w
        ({ w with stored := Function.update w.stored addr none }, [.forgot addr])

theorem World.steps (w : World) (op : NetOp) :
    World.Steps fingerprintOpenssh w (w.act fingerprintOpenssh op) := by
  cases op with
  | connectThrough chain target =>
    refine .begins (.inl ?_)
    cases chain with
    | nil => exact ⟨target, [], rfl⟩
    | cons first later => exact ⟨first, later ++ [target], rfl⟩
  | trustHostKey host port fingerprint => exact .begins (.inr ⟨host, port, fingerprint, rfl⟩)
  | step c op =>
    unfold World.act
    dsimp only
    split
    · next called => exact .moves called (Call.moves w.stored c _ op)
    · exact .stays
  | importKnownHost => exact .imports _ _
  | forget => exact .forgets _

section Calls

variable {calls : List Call} {c i : Nat} {call found : Call}

theorem of_snoc (listed : (calls ++ [call])[i]? = some found) :
    calls[i]? = some found ∨ i = calls.length ∧ found = call := by
  rcases lt_trichotomy i calls.length with before | rfl | _
  · exact .inl (by rwa [List.getElem?_append_left before] at listed)
  · exact .inr ⟨rfl, by simpa using listed.symm⟩
  · rw [List.getElem?_eq_none (by simp; omega)] at listed
    cases listed

theorem of_set (listed : (calls.set c call)[i]? = some found) :
    i ≠ c ∧ calls[i]? = some found ∨ i = c ∧ found = call := by
  by_cases same : i = c
  · subst same
    rw [List.getElem?_set_self'] at listed
    obtain ⟨-, -, rfl⟩ := Option.map_eq_some_iff.mp listed
    exact .inr ⟨rfl, rfl⟩
  · exact .inl ⟨same, by rwa [List.getElem?_set_ne (Ne.symm same)] at listed⟩

end Calls

end UniSsh.Hosts
