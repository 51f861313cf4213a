import UniSsh.Base.Bytes
import Mathlib.Tactic.Common

/-!
# Serving the agent protocol

An agent reads framed requests off a stream and answers one at a time on another thread, reading
on meanwhile. The flags that keep the log short are left out.
-/

namespace UniSsh.Agent

open List

/-- The hash an RSA key signs with. -/
inductive RsaHash where
  | sha256
  | sha512
  deriving DecidableEq

/-- An OpenSSH public line: its words, and the wire encoding that the parser of such lines reads
off it. -/
structure PublicOpenssh where
  words : List String
  blob : Option Bytes

structure OfferedKey where
  keyId : Bytes
  publicOpenssh : PublicOpenssh
  comment : String

def OfferedKey.isRsa (key : OfferedKey) : Bool :=
  key.publicOpenssh.words.head? ∈ [some "ssh-rsa", some "ssh-rsa-cert-v01@openssh.com"]

/-- What a policy does on the way to a signature. -/
inductive Act where
  | approve (data : Bytes) (granted : Bool)
  | sign (keyId data : Bytes) (rsa : RsaHash)

/-- A policy as one request meets it. A call of `sign` gives what it did and the algorithm and
signature. -/
structure AgentKeys where
  offered : List OfferedKey
  sign : OfferedKey → Bytes → RsaHash → List Act × Option (String × Bytes)

/-! ## The two policies -/

/-- The agent of a connection, with the one key that the connection authenticated with. -/
structure ForwardedAgent where
  keys : Bytes → Bytes → RsaHash → Option (String × Bytes)
  keyId : Bytes
  publicOpenssh : PublicOpenssh
  host : String
  approval : String → Bytes → Bool

def ForwardedAgent.comment (agent : ForwardedAgent) : String :=
  agent.publicOpenssh.words[2]?.getD "unissh"

def ForwardedAgent.agentKeys (agent : ForwardedAgent) : AgentKeys where
  offered := [⟨agent.keyId, agent.publicOpenssh, agent.comment⟩]
  sign key data rsa :=
    if agent.approval agent.host data then
      ([.approve data true, .sign key.keyId data rsa], agent.keys key.keyId data rsa)
    else ([.approve data false], none)

structure AgentCaller where
  pid : Option UInt32
  executable : Option String

/-- The system agent, which asks for an approval before `keys`. -/
structure LocalAgent where
  keys : AgentKeys
  approval : OfferedKey → AgentCaller → Bytes → Bool
  caller : AgentCaller

def LocalAgent.agentKeys (agent : LocalAgent) : AgentKeys where
  offered := agent.keys.offered
  sign key data rsa :=
    if agent.approval key agent.caller data then
      (.approve data true :: (agent.keys.sign key data rsa).1, (agent.keys.sign key data rsa).2)
    else ([.approve data false], none)

/-! ## One request -/

namespace Msg

def failure : UInt8 := 5
def requestIdentities : UInt8 := 11
def identitiesAnswer : UInt8 := 12
def signRequest : UInt8 := 13
def signResponse : UInt8 := 14

end Msg

def takeU32 (input : Bytes) : Option (Nat × Bytes) :=
  if input.length < 4 then none else some (ofBeBytes (input.take 4), input.drop 4)

def takeString (input : Bytes) : Option (Bytes × Bytes) := do
  let (len, body) ← takeU32 input
  if body.length < len then none else some (body.take len, body.drop len)

def putString (s : Bytes) : Option Bytes :=
  if s.length < 2 ^ 32 then some (lenPrefixed 4 s) else none

def framed (payload : Bytes) : Option Bytes := putString payload

def failure : Bytes := [0, 0, 0, 1, Msg.failure]

def identities (policy : AgentKeys) : Option Bytes := do
  let identities := policy.offered.filterMap fun key =>
    key.publicOpenssh.blob.map fun blob => (blob, key.comment.toUTF8.toList)
  guard (identities.length < 2 ^ 32)
  let fields ← identities.mapM fun (blob, comment) => do
    pure ((← putString blob) ++ (← putString comment))
  framed (Msg.identitiesAnswer :: beBytes 4 identities.length ++ fields.flatten)

/-- The hash that the flags of a request choose, unless they leave an RSA key with SHA-1. -/
def rsaHash (key : OfferedKey) (flags : Nat) : Option RsaHash :=
  if flags &&& 2 ≠ 0 then some .sha256
  else if flags &&& 4 ≠ 0 then some .sha512
  else if key.isRsa then none
  else some .sha512

/-- The key, the data and the hash that a signature request puts to the policy. -/
def asked (policy : AgentKeys) (body : Bytes) : Option (OfferedKey × Bytes × RsaHash) := do
  let (wantBlob, body) ← takeString body
  let (data, body) ← takeString body
  let key ← policy.offered.find? fun key => key.publicOpenssh.blob = some wantBlob
  let rsa ← rsaHash key ((takeU32 body).elim 0 Prod.fst)
  pure (key, data, rsa)

def signResponse (signed : String × Bytes) : Option Bytes := do
  let inner := (← putString signed.1.toUTF8.toList) ++ (← putString signed.2)
  framed (Msg.signResponse :: (← putString inner))

/-- What the policy does for a request, and the reply, if it is not refused. -/
def reply (policy : AgentKeys) : Bytes → List Act × Option Bytes
  | [] => ([], none)
  | kind :: body =>
    if kind = Msg.requestIdentities then ([], identities policy)
    else if kind = Msg.signRequest then
      match asked policy body with
      | none => ([], none)
      | some (key, data, rsa) =>
        ((policy.sign key data rsa).1, (policy.sign key data rsa).2.bind signResponse)
    else ([], none)

def answer (policy : AgentKeys) (request : Bytes) : List Act × Bytes :=
  ((reply policy request).1, (reply policy request).2.getD failure)

/-- A request, the policy it met, what was done for it and the reply that was written. -/
structure Exchange where
  request : Bytes
  policy : AgentKeys
  acts : List Act
  reply : Bytes

/-- The exchange sent a signature, made by one approved call for what the request names. -/
def Exchange.Signed (x : Exchange) : Prop :=
  ∃ blob data flags key rsa signed,
    x.request = Msg.signRequest :: (lenPrefixed 4 blob ++ (lenPrefixed 4 data ++ flags)) ∧
    key ∈ x.policy.offered ∧ key.publicOpenssh.blob = some blob ∧
    rsaHash key ((takeU32 flags).elim 0 Prod.fst) = some rsa ∧
    x.policy.sign key data rsa = (x.acts, some signed) ∧ signResponse signed = some x.reply ∧
    (∀ agent : ForwardedAgent, x.policy = agent.agentKeys →
      x.acts = [.approve data true, .sign key.keyId data rsa]) ∧
    ∀ agent : LocalAgent, x.policy = agent.agentKeys →
      x.acts = .approve data true :: (agent.keys.sign key data rsa).1

/-- What one exchange may do: only a signature request is put to the policy. -/
structure Exchange.Sound (x : Exchange) : Prop where
  answered : answer x.policy x.request = (x.acts, x.reply)
  signs : x.request.head? = some Msg.signRequest → x.reply = failure ∨ x.Signed
  other : x.request.head? ≠ some Msg.signRequest →
    x.acts = [] ∧ (x.request.head? ≠ some Msg.requestIdentities → x.reply = failure)

theorem takeString_eq_some (taken : takeString input = some (s, rest)) :
    input = lenPrefixed 4 s ++ rest := by
  simp only [takeString, takeU32, Option.bind_eq_bind, Option.bind_eq_some_iff,
    Option.ite_none_left_eq_some, Option.some.injEq, Prod.exists, Prod.mk.injEq] at taken
  obtain ⟨len, body, ⟨long, rfl, rfl⟩, enough, rfl, rfl⟩ := taken
  have head : beBytes 4 (ofBeBytes (input.take 4)) = input.take 4 := by
    have digits := beBytes_ofBeBytes (input.take 4)
    rwa [length_take_of_le (by omega)] at digits
  rw [lenPrefixed, length_take_of_le (by omega), head, append_assoc, take_append_drop,
    take_append_drop]

theorem asked_eq_some (found : asked policy body = some (key, data, rsa)) : ∃ blob flags,
      body = lenPrefixed 4 blob ++ (lenPrefixed 4 data ++ flags) ∧ key ∈ policy.offered ∧
        key.publicOpenssh.blob = some blob ∧
        rsaHash key ((takeU32 flags).elim 0 Prod.fst) = some rsa := by
  simp only [asked, Option.bind_eq_bind, Option.bind_eq_some_iff, Option.pure_def,
    Option.some.injEq, Prod.exists, Prod.mk.injEq] at found
  obtain ⟨blob, rest, blobTaken, data, flags, dataTaken, key, offered, rsa, hash, rfl, rfl, rfl⟩ :=
    found
  refine ⟨blob, flags, ?_, mem_of_find?_eq_some offered, by simpa using find?_some offered, hash⟩
  rw [takeString_eq_some blobTaken, takeString_eq_some dataTaken]

theorem answer_sound (policy : AgentKeys) (request : Bytes) :
    Exchange.Sound ⟨request, policy, (answer policy request).1, (answer policy request).2⟩ := by
  cases request with
  | nil => exact ⟨rfl, nofun, fun _ => ⟨rfl, fun _ => rfl⟩⟩
  | cons kind body =>
    refine ⟨rfl, fun isSign => ?_, fun other => ?_⟩
    · obtain rfl : kind = Msg.signRequest := Option.some.inj isSign
      have unlisted : Msg.signRequest ≠ Msg.requestIdentities := by decide
      simp only [answer, reply, if_neg unlisted, if_true]
      cases found : asked policy body with
      | none => exact .inl rfl
      | some call =>
        obtain ⟨key, data, rsa⟩ := call
        obtain ⟨blob, flags, rfl, offered, named, hash⟩ := asked_eq_some found
        dsimp only
        cases put : (policy.sign key data rsa).2.bind signResponse with
        | none => exact .inl rfl
        | some out =>
          obtain ⟨signed, made, put⟩ := Option.bind_eq_some_iff.mp put
          refine .inr ⟨blob, data, flags, key, rsa, signed, rfl, offered, named, hash,
            Prod.ext rfl made, put, ?_, ?_⟩
          -- either agent makes a signature only after the approval
          · rintro agent rfl
            simp only [ForwardedAgent.agentKeys] at made ⊢
            split at made <;> simp_all
          · rintro agent rfl
            simp only [LocalAgent.agentKeys] at made ⊢
            split at made <;> simp_all
    · have unsigned : kind ≠ Msg.signRequest := by simpa using other
      simp only [answer, reply, if_neg unsigned]
      split <;> simp_all

/-! ## The stream -/

def maxFrame : Nat := 256 * 1024

/-- What the reader makes of its bytes: read on, refuse the frame, or take one of so many bytes. -/
inductive Next where
  | more
  | refused
  | frame (len : Nat)

def nextFrame (inbox : Bytes) : Next :=
  let len := ofBeBytes (inbox.take 4)
  if inbox.length < 4 then .more
  else if len = 0 ∨ maxFrame < len then .refused
  else if inbox.length < 4 + len then .more
  else .frame (4 + len)

/-- A connection: its unread bytes, the request being answered, and the exchanges so far. -/
structure Conn where
  inbox : Bytes := []
  job : Option Bytes := none
  closed : Bool := false
  exchanges : List Exchange := []

/-- A read of the stream, into a buffer of 4096 bytes. -/
abbrev Chunk := { bytes : Bytes // 0 < bytes.length ∧ bytes.length ≤ 4096 }

/-- What the serving loop waits for: bytes, the policy's answer, or the end. -/
inductive Event where
  | read (chunk : Chunk)
  | answered (policy : AgentKeys)
  | ended

/-- Takes the next frame out of the inbox, where it holds one, to be answered. -/
def Conn.proceed (c : Conn) : Conn :=
  match nextFrame c.inbox with
  | .more => c
  | .refused => { c with closed := true }
  | .frame len =>
    { c with inbox := c.inbox.drop len, job := some ((c.inbox.take len).drop 4) }

/-- An event that the loop does not wait for changes nothing. -/
def Conn.step (c : Conn) (event : Event) : Conn :=
  if c.closed then c
  else match event, c.job with
    | .read chunk, none => { c with inbox := c.inbox ++ chunk : Conn }.proceed
    | .read chunk, some _ =>
      if c.inbox.length ≤ 4 + maxFrame then { c with inbox := c.inbox ++ chunk } else c
    | .answered policy, some request =>
      let (acts, reply) := answer policy request
      { c with
        job := none
        exchanges := c.exchanges ++ [⟨request, policy, acts, reply⟩] : Conn }.proceed
    | .answered _, none => c
    | .ended, _ => { c with closed := true }

def serve (events : List Event) : Conn := events.foldl Conn.step {}

/-- The loop waits for bytes unless it holds a frame while it answers; for an answer; and for the
end. -/
def Conn.Awaits (c : Conn) : Event → Prop
  | .read _ => c.closed = false ∧ (c.job = none ∨ c.inbox.length ≤ 4 + maxFrame)
  | .answered _ => c.closed = false ∧ c.job.isSome
  | .ended => c.closed = false

/-- Events that each come when the loop waits for them. -/
def Conn.Meets : Conn → List Event → Prop
  | _, [] => True
  | c, event :: events => c.Awaits event ∧ (c.step event).Meets events

/-- What the far end sent. -/
def sent (events : List Event) : Bytes :=
  events.flatMap fun | .read chunk => chunk | _ => []

/-- The policies that answered, in order. -/
def policies (events : List Event) : List AgentKeys :=
  events.filterMap fun | .answered policy => some policy | _ => none

theorem nextFrame_eq_frame (whole : nextFrame inbox = .frame len) :
    0 < len ∧ len ≤ inbox.length ∧ ∀ rest, nextFrame (inbox ++ rest) = .frame len := by
  simp only [nextFrame] at whole
  split at whole
  · cases whole
  split at whole
  · cases whole
  split at whole
  · cases whole
  cases whole
  refine ⟨by omega, by omega, fun rest => ?_⟩
  have head : (inbox ++ rest).take 4 = inbox.take 4 := take_append_of_le_length (by omega)
  simp only [nextFrame, head, length_append]
  rw [if_neg (by omega), if_neg ‹_›, if_neg (by omega)]

theorem nextFrame_eq_more (short : nextFrame inbox = .more) :
    inbox.length < 4 + maxFrame := by
  simp only [nextFrame] at short
  split at short
  · omega
  split at short
  · cases short
  split at short
  · omega
  · cases short

/-- The requests of a stream, up to the first frame that is refused. -/
def frames (stream : Bytes) : List Bytes :=
  match _whole : nextFrame stream with
  | .frame len => (stream.take len).drop 4 :: frames (stream.drop len)
  | .more => []
  | .refused => []
termination_by stream.length
decreasing_by
  have bounds := nextFrame_eq_frame _whole
  rw [length_drop]
  omega

theorem frames_append (whole : nextFrame inbox = .frame len) (rest : Bytes) :
    frames (inbox ++ rest) = (inbox.take len).drop 4 :: frames (inbox.drop len ++ rest) := by
  obtain ⟨-, fits, stable⟩ := nextFrame_eq_frame whole
  rw [frames]
  split
  · rename_i found
    cases found.symm.trans (stable rest)
    rw [take_append_of_le_length fits, drop_append_of_le_length fits]
  · simp_all
  · simp_all

theorem frames_eq_nil (none : ∀ len, nextFrame stream ≠ .frame len) :
    frames stream = [] := by
  rw [frames]
  split
  · rename_i whole
    exact absurd whole (none _)
  · rfl
  · rfl

/-- How far a connection is after these events. -/
structure Conn.Inv (c : Conn) (events : List Event) : Prop where
  cut : ∀ rest, frames (sent events ++ rest) =
    c.exchanges.map Exchange.request ++ c.job.toList ++ frames (c.inbox ++ rest)
  policies : c.exchanges.map Exchange.policy = policies events
  drained : c.job = none → frames c.inbox = []
  short : c.job = none → c.closed = false → c.inbox.length < 4 + maxFrame
  closes : c.closed = true → .ended ∈ events ∨ c.job = none ∧ nextFrame c.inbox = .refused
  sound : ∀ x ∈ c.exchanges, x.Sound
  bound : c.inbox.length ≤ 4 + maxFrame + 4096

variable {c : Conn} {events : List Event}

theorem Conn.proceed_inv (free : c.job = none) (opened : c.closed = false)
    (cut : ∀ rest, frames (sent events ++ rest) =
      c.exchanges.map Exchange.request ++ frames (c.inbox ++ rest))
    (policies : c.exchanges.map Exchange.policy = policies events)
    (sound : ∀ x ∈ c.exchanges, x.Sound) (bound : c.inbox.length ≤ 4 + maxFrame + 4096) :
    c.proceed.Inv events := by
  have whole : ∀ rest, frames (sent events ++ rest) =
      c.exchanges.map Exchange.request ++ c.job.toList ++ frames (c.inbox ++ rest) := by
    simpa [free] using cut
  unfold proceed
  split
  · rename_i short
    exact ⟨whole, policies, fun _ => frames_eq_nil (by simp [short]),
      fun _ _ => nextFrame_eq_more short, fun closed => (nomatch opened.symm.trans closed), sound,
      bound⟩
  · rename_i bad
    exact ⟨whole, policies, fun _ => frames_eq_nil (by simp [bad]), nofun,
      fun _ => .inr ⟨free, bad⟩, sound, bound⟩
  · rename_i found
    refine ⟨fun rest => ?_, policies, nofun, nofun, fun closed => (nomatch opened.symm.trans closed),
      sound, ?_⟩
    · rw [cut, frames_append found]
      simp
    · exact Nat.le_trans (length_drop ▸ Nat.sub_le _ _) bound

/-- A read goes to the end of the inbox. -/
theorem Conn.Inv.cut_read (inv : c.Inv events) (chunk : Chunk) (rest : Bytes) :
    frames (sent (events ++ [.read chunk]) ++ rest) =
      c.exchanges.map Exchange.request ++ c.job.toList ++ frames (c.inbox ++ chunk ++ rest) := by
  have cut := inv.cut (chunk ++ rest)
  simpa [sent] using cut

theorem Conn.step_inv (inv : c.Inv events) (awaited : c.Awaits event) :
    (c.step event).Inv (events ++ [event]) := by
  unfold step
  cases event with
  | read chunk =>
    obtain ⟨opened, room⟩ := awaited
    have size := chunk.2
    have policies : c.exchanges.map Exchange.policy = policies (events ++ [.read chunk]) := by
      simpa [Agent.policies] using inv.policies
    rw [if_neg (Bool.eq_false_iff.mp opened)]
    cases busy : c.job with
    | none =>
      have short := inv.short busy opened
      refine proceed_inv rfl opened (fun rest => ?_) policies inv.sound ?_
      · simpa [busy] using inv.cut_read chunk rest
      · simp only [length_append]
        omega
    | some request =>
      have room : c.inbox.length ≤ 4 + maxFrame := room.resolve_left (by simp [busy])
      dsimp only
      rw [if_pos room]
      refine ⟨busy ▸ inv.cut_read chunk, policies, nofun, nofun,
        fun closed => (nomatch opened.symm.trans closed), inv.sound, ?_⟩
      simp only [length_append]
      omega
  | answered policy =>
    obtain ⟨opened, working⟩ := awaited
    obtain ⟨request, busy⟩ := Option.isSome_iff_exists.mp working
    rw [if_neg (Bool.eq_false_iff.mp opened), busy]
    refine proceed_inv rfl opened (fun rest => ?_) ?_ ?_ inv.bound
    · simpa [sent, busy] using inv.cut rest
    · simp [inv.policies, policies]
    · refine forall_mem_append.mpr ⟨inv.sound, forall_mem_singleton.mpr ?_⟩
      exact answer_sound policy request
  | ended =>
    rw [if_neg (Bool.eq_false_iff.mp awaited)]
    refine ⟨fun rest => ?_, ?_, inv.drained, nofun, fun _ => .inl (by simp), inv.sound, inv.bound⟩
    · simpa [sent] using inv.cut rest
    · simpa [policies] using inv.policies

theorem Conn.run_inv (inv : c.Inv before) (met : c.Meets events) :
    (events.foldl step c).Inv (before ++ events) := by
  induction events generalizing c before with
  | nil => simpa using inv
  | cons event events ih => simpa using ih (step_inv inv met.1) met.2

/-- However the stream is cut, each request is answered once, in order, by its policy. The loop ends
only at the end of the stream or at a refused frame, holds at most a frame and a read, and signs
only for offered and approved keys. -/
theorem serve_answers_each_request_once (events : List Event) (met : Conn.Meets {} events) :
    (∀ rest, frames (sent events ++ rest) =
        (serve events).exchanges.map Exchange.request ++ (serve events).job.toList ++
          frames ((serve events).inbox ++ rest)) ∧
      (serve events).exchanges.map Exchange.policy = policies events ∧
      ((serve events).job = none →
        (serve events).exchanges.map Exchange.request = frames (sent events)) ∧
      ((serve events).closed = true → .ended ∈ events ∨
        (serve events).job = none ∧ nextFrame (serve events).inbox = .refused) ∧
      (∀ x ∈ (serve events).exchanges, x.Sound) ∧
      (serve events).inbox.length ≤ 4 + maxFrame + 4096 := by
  have start : Conn.Inv {} [] := ⟨fun _ => rfl, rfl, fun _ => frames_eq_nil nofun,
    fun _ _ => by decide, nofun, nofun, by decide⟩
  have inv : (serve events).Inv events := Conn.run_inv start met
  refine ⟨inv.cut, inv.policies, fun free => ?_, inv.closes, inv.sound, inv.bound⟩
  simpa [free, inv.drained free] using (inv.cut []).symm

namespace Sample

/-- An agent that forwards one key and approves every signature. -/
def agent : ForwardedAgent where
  keys _ data _ := some ("ssh-ed25519", data)
  keyId := [1]
  publicOpenssh := ⟨["ssh-ed25519", "AAAA"], some [9]⟩
  host := "web"
  approval _ _ := true

/-- A request to sign the byte 7, cut inside its length, with a second one begun before the
answer. -/
def session : List Event :=
  [.read ⟨[0, 0, 0], by decide⟩,
    .read ⟨[15, Msg.signRequest, 0, 0, 0, 1, 9, 0, 0, 0, 1, 7, 0, 0, 0, 0], by decide⟩,
    .read ⟨[0, 0], by decide⟩, .answered agent.agentKeys]

end Sample

/-- A request cut inside its length is answered once. -/
theorem serve_answers_each_request_once_cut :
    (serve Sample.session).exchanges.map Exchange.acts =
        [[.approve [7] true, .sign [1] [7] .sha512]] ∧
      (serve Sample.session).exchanges.map Exchange.request = frames (sent Sample.session) := by
  have met : Conn.Meets {} Sample.session := by
    refine ⟨⟨rfl, .inl rfl⟩, ⟨rfl, .inl rfl⟩, ⟨rfl, .inr ?_⟩, ⟨rfl, rfl⟩, trivial⟩
    decide
  obtain ⟨-, -, all, -⟩ := serve_answers_each_request_once Sample.session met
  exact ⟨rfl, all rfl⟩

end UniSsh.Agent
