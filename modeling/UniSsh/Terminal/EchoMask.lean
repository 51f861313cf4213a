import UniSsh.Base.Bytes

/-!
# Masking a filled password

For a while after a fill the password is starred in the output, with what the remote put between
its characters kept. A possible start at the end of a chunk is held back.
-/

namespace UniSsh.Terminal

/-- Milliseconds. -/
def echoWindow : Nat := 30000
def echoAfterInput : Nat := 3000
def holdMax : Nat := 4096

/-- What may stand between two echoed characters, at the start of some output. -/
inductive Skip where
  | len (n : Nat)
  | incomplete
  | no

def skipParams (i : Nat) : Bytes → Skip
  | [] => .incomplete
  | b :: rest =>
    if 0x40 ≤ b ∧ b ≤ 0x7e then .len (i + 3)
    else if 0x20 ≤ b ∧ b ≤ 0x3f then skipParams (i + 1) rest
    else .no

def skipTitle (i : Nat) : Bytes → Skip
  | [] => .incomplete
  | b :: rest =>
    if b = 0x07 then .len (i + 3)
    else if b = 0x1b then
      match rest with
      | [] => .incomplete
      | next :: _ => if next = 0x5c then .len (i + 4) else .no
    else skipTitle (i + 1) rest

/-- A line break, or a control or title sequence, at the start of some output. -/
def skipAt : Bytes → Skip
  | [] => .no
  | b :: rest =>
    if b = 0x0d ∨ b = 0x0a then .len 1
    else if b = 0x1b then
      match rest with
      | [] => .incomplete
      | next :: body =>
        if next = 0x5b then skipParams 0 body
        else if next = 0x5d then skipTitle 0 body
        else .no
    else .no

/-- The secret is read in full, is cut short by the end of the output, or is not there. -/
inductive Attempt where
  | full (positions : List Nat)
  | cut
  | miss

/-- Reads what is left of a secret from position `j`; every round takes a byte. -/
def readSecret : Nat → Bytes → Nat → Bytes → List Nat → Attempt
  | 0, _, _, _, _ => .miss
  | _ + 1, [], _, _, positions => .full positions
  | _ + 1, _ :: _, _, [], _ => .cut
  | fuel + 1, want :: secret, j, b :: rest, positions =>
    if b = want then readSecret fuel secret (j + 1) rest (positions ++ [j])
    else if positions = [] then .miss
    else match skipAt (b :: rest) with
      | .len n => readSecret fuel (want :: secret) (j + n) ((b :: rest).drop n) positions
      | .incomplete => .cut
      | .no => .miss

def attempt (data secret : Bytes) : Attempt :=
  match data with
  | [] => .cut
  | _ :: _ => readSecret (data.length + 1) secret 0 data []

/-- An occurrence with a star in place of each character; continuation bytes add none. -/
def starred : List (Nat × UInt8) → Nat → Bytes → Bytes
  | _, _, [] => []
  | [], pos, byte :: rest => byte :: starred [] (pos + 1) rest
  | (p, s) :: stars, pos, byte :: rest =>
    if p = pos then
      (if s &&& 0xc0 ≠ 0x80 then [0x2a] else []) ++ starred stars (pos + 1) rest
    else byte :: starred ((p, s) :: stars) (pos + 1) rest

structure Scanned where
  out : Bytes
  echoed : Bool
  held : Bytes

def Scanned.show (b : UInt8) (s : Scanned) : Scanned := { s with out := b :: s.out }

/-- Output with the secret masked. Every round takes a byte. -/
def scan (secret : Bytes) (inputSeen expired : Bool) : Nat → Bytes → Scanned
  | 0, _ => { out := [], echoed := false, held := [] }
  | _ + 1, [] => { out := [], echoed := false, held := [] }
  | fuel + 1, b :: rest =>
    match attempt (b :: rest) secret with
    | .full positions =>
      let last := positions.getLast?.getD 0
      let later := scan secret inputSeen expired fuel ((b :: rest).drop (last + 1))
      { later with
        out := starred (positions.zip secret) 0 ((b :: rest).take (last + 1)) ++ later.out
        echoed := !inputSeen || later.echoed }
    | .cut =>
      if !expired && decide ((b :: rest).length ≤ holdMax) then
        { out := [], echoed := false, held := b :: rest }
      else (scan secret inputSeen expired fuel rest).show b
    | .miss => (scan secret inputSeen expired fuel rest).show b

structure EchoMask where
  secret : Bytes
  deadline : Nat
  inputSeen : Bool
  held : Bytes

structure Masked where
  out : Bytes
  echoed : Bool
  expired : Bool

namespace EchoMask

/-- There is nothing to mask in an empty secret. -/
def new (secret : Bytes) (now : Nat) : Option EchoMask :=
  if secret = [] then none
  else some { secret, deadline := now + echoWindow, inputSeen := false, held := [] }

/-- The first keystroke after the fill closes the window soon after it. -/
def noteInput (mask : EchoMask) (now : Nat) : EchoMask :=
  if mask.inputSeen then mask
  else { mask with inputSeen := true, deadline := min mask.deadline (now + echoAfterInput) }

def feed (mask : EchoMask) (chunk : Bytes) (now : Nat) : EchoMask × Masked :=
  let data := mask.held ++ chunk
  let expired := decide (mask.deadline ≤ now)
  let scanned := scan mask.secret mask.inputSeen expired data.length data
  ({ mask with held := scanned.held }, { out := scanned.out, echoed := scanned.echoed, expired })

end EchoMask

end UniSsh.Terminal
