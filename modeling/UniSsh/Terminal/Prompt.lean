import UniSsh.Base.Bytes

/-!
# Password prompts at the end of a terminal's output

The classifier looks at the line the cursor is on, without escape sequences and what was drawn
elsewhere.
-/

namespace UniSsh.Terminal

/-- Lossy decoding of UTF-8, and Unicode's lower case, control characters and white space. -/
structure Unicode where
  decode : Bytes → List Char
  lowercase : List Char → List Char
  isControl : Char → Bool
  isWhitespace : Char → Bool

/-- Which recognised prompt is waiting for a password. -/
inductive FillPromptKind where
  | sudo
  | doas
  | generic
  deriving DecidableEq

/-! ## Cutting texts -/

def splitOnce (c : Char) : List Char → Option (List Char × List Char)
  | [] => none
  | x :: rest =>
    if x = c then some ([], rest)
    else (splitOnce c rest).map fun parts => (x :: parts.1, parts.2)

def rsplitOnce (c : Char) : List Char → Option (List Char × List Char)
  | [] => none
  | x :: rest =>
    match rsplitOnce c rest with
    | some (before, after) => some (x :: before, after)
    | none => if x = c then some ([], rest) else none

/-- What follows a text's start, if it has that start. -/
def afterStart : List Char → List Char → Option (List Char)
  | [], text => some text
  | _ :: _, [] => none
  | c :: start, x :: text => if c = x then afterStart start text else none

/-- What precedes a text's end, if it has that end. -/
def beforeEnd (finish text : List Char) : Option (List Char) :=
  (afterStart finish.reverse text.reverse).map List.reverse

def trimEnd (drop : Char → Bool) (text : List Char) : List Char :=
  (text.reverse.dropWhile drop).reverse

/-! ## Escape sequences -/

/-- Where an escape sequence put the cursor, when it put it somewhere absolute. -/
inductive Jump where
  | row (n : Nat)
  | restore

def isDigit (c : Char) : Bool := '0' ≤ c && c ≤ '9'

/-- A number of 32 bits in decimal digits. -/
def parseRow (digits : List Char) : Option Nat :=
  let n := digits.foldl (fun n c => n * 10 + (c.toNat - '0'.toNat)) 0
  if n < 2 ^ 32 then some n else none

def csiJump (params : List Char) (fin : Char) : Option Jump :=
  if (fin = 'H' || fin = 'f' || fin = 'd') && params.all (fun c => isDigit c || c = ';') then
    let row := params.takeWhile fun c => c ≠ ';'
    if row = [] then some (.row 1) else (parseRow row).map .row
  else if fin = 'u' && params = [] then some .restore
  else none

/-- The rest of a control sequence: its parameters up to one final character. -/
def skipCsi (params : List Char) : List Char → Option Jump × List Char
  | [] => (none, [])
  | c :: rest =>
    if '\x40' ≤ c && c ≤ '\x7e' then (csiJump params c, rest) else skipCsi (params ++ [c]) rest

/-- The rest of a string sequence, up to its terminator. -/
def skipString : List Char → List Char
  | [] => []
  | c :: rest =>
    if c = '\x07' then rest
    else if c = '\x1b' then
      match rest with
      | '\\' :: more => more
      | _ => rest
    else skipString rest

def isIntermediate (c : Char) : Bool := '\x20' ≤ c && c ≤ '\x2f'

def skipIntermediates : List Char → List Char
  | [] => []
  | c :: rest => if isIntermediate c then skipIntermediates rest else rest

/-- What an escape sequence is, after its first character, and what follows it. -/
def skipEscape : List Char → Option Jump × List Char
  | [] => (none, [])
  | c :: rest =>
    if c = '[' then skipCsi [] rest
    else if c = ']' || c = 'P' || c = 'X' || c = '^' || c = '_' then (none, skipString rest)
    else if isIntermediate c then (none, skipIntermediates rest)
    else if c = '8' then (some .restore, rest)
    else (none, rest)

/-! ## The line of the cursor -/

/-- The text of an output, cut where a sequence jumped the cursor somewhere absolute. -/
abbrev Parts := List (Option Jump × List Char)

/-- A jump back to a row that the last write covered keeps that row of it. -/
def rowOf : Option Jump → Option Jump → List Char → Option (List Char)
  | some (.row a), some (.row b), text =>
    if a ≤ b then ((text.splitOn '\n')[b - a]?).map (trimEnd fun c => c = '\r') else none
  | _, _, _ => none

/-- The text the cursor follows, from the parts of the output, the last first. -/
def atCursor : Parts → List Char
  | [] => []
  | [(_, text)] => text
  | (back, text) :: (went, text') :: rest =>
    if text ≠ [] then text
    else match rowOf went back text' with
      | some line => line
      | none =>
        match rest with
        | [] => text'
        | _ :: _ => atCursor rest

section Classify

variable (text : Unicode)

/-- The parts of an output, the last first; every round takes a character. -/
def partsOf : Nat → List Char → Parts → Parts
  | 0, _, parts => parts
  | _ + 1, [], parts => parts
  | fuel + 1, c :: rest, parts =>
    if c = '\x1b' then
      match skipEscape rest with
      | (some jump, rest) => partsOf fuel rest ((some jump, []) :: parts)
      | (none, rest) => partsOf fuel rest parts
    else if !text.isControl c || c = '\n' || c = '\r' then
      match parts with
      | (jump, shown) :: older => partsOf fuel rest ((jump, shown ++ [c]) :: older)
      | [] => partsOf fuel rest []
    else partsOf fuel rest parts

def stripControls (s : List Char) : List Char := atCursor (partsOf text s.length s [(none, [])])

/-- Output that only draws away from the cursor's line and comes back. -/
def drawsElsewhere (out : Bytes) : Bool :=
  out.head? = some 0x1b && stripControls text (text.decode out) = []

/-- The user a `[sudo] … <user>:` prompt names. -/
def sudoUser (line : List Char) : Option (List Char) := do
  let rest ← afterStart "[sudo] ".toList line
  let rest ← beforeEnd [':'] rest
  -- French puts a space before the colon.
  let rest := match rest.getLast? with
    | some c => if text.isWhitespace c then rest.dropLast else rest
    | none => rest
  let (head, user) ← rsplitOnce ' ' rest
  if head ≠ [] ∧ user ≠ [] ∧ user.any text.isWhitespace = false then some user else none

/-- The user a `doas (<user>@<host>) password:` prompt names. -/
def doasUser (line : List Char) : Option (List Char) := do
  let rest ← afterStart "doas (".toList line
  let inner ← beforeEnd ") password:".toList rest
  if inner.any text.isWhitespace then none
  else
    let (user, host) ← splitOnce '@' inner
    if user ≠ [] ∧ host ≠ [] then some user else none

def promptMaxChars : Nat := 160

/-- Bare prompts that name no account. -/
def genericPrompts : List String :=
  ["Password:", "Пароль:", "Passwort:", "Mot de passe :", "Mot de passe:", "Contraseña:", "Senha:",
    "Hasło:", "密码：", "密码:"]

/-- The prompt that a line is. -/
def classifyLine (line : List Char) (loginUser : String) (allowGeneric : Bool) :
    Option FillPromptKind :=
  match sudoUser text line with
  | some user => if user = loginUser.toList then some .sudo else none
  | none =>
    match doasUser text line with
    | some user => if user = loginUser.toList then some .doas else none
    | none =>
      if !allowGeneric then none
      else
        let lower := text.lowercase line
        if genericPrompts.any fun p => text.lowercase p.toList = lower then some .generic
        else none

/-- The prompt the output ends with, if it is one that the login user's password may answer. -/
def classifyTail (tail : Bytes) (loginUser : String) (allowGeneric : Bool) :
    Option FillPromptKind :=
  let shown := stripControls text (text.decode tail)
  if shown.getLast? = some '\n' then none
  else
    let line := match rsplitOnce '\n' shown with
      | some (_, line) => line
      | none => shown
    -- What follows a carriage return overwrites what was on the line before it.
    let visible := match rsplitOnce '\r' line with
      | some (before, after) => if before.all text.isWhitespace then some after else none
      | none => some line
    match visible with
    | none => none
    | some line =>
      let line := trimEnd text.isWhitespace line
      if line = [] ∨ promptMaxChars < line.length then none
      else classifyLine text line loginUser allowGeneric

end Classify

end UniSsh.Terminal
