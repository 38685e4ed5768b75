import E2Mail.Lib.Decimal
import E2Mail.Lib.Lines
import E2Mail.Sieve.Client
import Mathlib.Algebra.Order.Ring.Int

/-!
# What the commands read

The client at the level of octets: how each command reads the response to it, line by
line or, for the text of a script, by its length.

The server takes its turn after the connection, the handshake, each command and each answer
to a challenge. What it sends then is all there is to read, until it closes.

* `Link` — what is to be read;
* `perform` — how a command reads its response;
* `Response` — the responses of the protocol;
* `Framed` — each command reads its own response, all of it, and reports its status;
* `framed_iff` — when they all do.
-/

namespace E2Mail.ManageSieve

open Lib Lib.Text

variable {α κ : Type}

/-! ## The link -/

/-- What has come and is not read, and what the server sends at its next turns. -/
structure Link where
  unread : Octets
  coming : List Octets
  deriving DecidableEq

/-- The server takes its turn. -/
def Link.turn (k : Link) : Link := ⟨k.unread ++ k.coming.headD [], k.coming.tail⟩

/-- All that may still be read. -/
def Link.size (k : Link) : Nat := k.unread.length + (k.coming.map List.length).sum

/-- How a command fails. -/
inductive Fault where
  /-- a read fails; the text before the reader's error -/
  | read (before : String)
  /-- the server's line, and the text before it -/
  | replied (before : String) (line : Text)
  /-- `GETSCRIPT bad literal` -/
  | badLiteral (line : Text)
  /-- `make` with a length that is negative or too large -/
  | panics
  /-- `sieve LOGIN got unexpected challenge count` -/
  | challengeCount
  /-- `script name required` -/
  | nameRequired
  deriving DecidableEq

variable (L : TextLib)

/-- A line as the client looks at it. -/
def trimmed (line : Octets) : Text := trimSpace (decode line)

/-- A loop over lines, blank ones passed over. Every turn reads a line, so one turn more than
there are octets to come is enough. -/
def eachLine (readErr : String) (body : Text → κ → Link → Link × (κ ⊕ Except Fault α)) :
    Nat → κ → Link → Link × Except Fault α
  | 0, _, k => (k, .error (.read readErr))
  | turns + 1, s, k =>
    match readLine k.unread with
    | none => (k, .error (.read readErr))
    | some (line, rest) =>
      if trimmed line = [] then eachLine readErr body turns s { k with unread := rest }
      else
        match body (trimmed line) s { k with unread := rest } with
        | (k', .inl s') => eachLine readErr body turns s' k'
        | (k', .inr result) => (k', result)

/-- What a final line says; `before` stands before it in the error. -/
def finalResult (before : String) (value : α) (line : Text) : Except Fault α :=
  if isFailureLine L line then .error (.replied before line) else .ok value

/-! ## Commands with lines for an answer -/

/-- The body of `readUntilFinal`, with the lines for `onLine`. -/
def onUntilFinal (line : Text) (lines : List Text) (k : Link) :
    Link × (List Text ⊕ Except Fault (List Text)) :=
  (k, if isFinalLine L line then .inr (finalResult L "server replied: " lines line)
    else .inl (lines ++ [line]))

/-- `readUntilFinal`, with the lines for `onLine`. -/
def Link.readUntilFinal (k : Link) : Link × Except Fault (List Text) :=
  eachLine "sieve read failed: " (onUntilFinal L) (k.size + 1) [] k

/-- An error with a text before it. -/
def Fault.wrap (before : String) : Fault → Fault
  | .read b => .read (before ++ b)
  | .replied b line => .replied (before ++ b) line
  | f => f

/-- A command without arguments to check, with the text before its errors. -/
def Link.command (before : String) (k : Link) : Link × Except Fault (List Text) :=
  ((k.turn.readUntilFinal L).1, (k.turn.readUntilFinal L).2.mapError (Fault.wrap before))

/-- `readBanner`, and the capabilities that follow a handshake. -/
def Link.readBanner (k : Link) : Link × Except Fault (List Text) := k.command L ""

/-- `Capability`, with the lines for `parseCap`. -/
def Link.capability (k : Link) : Link × Except Fault (List Text) := k.command L ""

/-- `ScriptInfo`. -/
structure ScriptInfo where
  name : Text
  active : Bool
  deriving DecidableEq

/-- The loop of `extractQuoted`: whether it is in quotes, after a backslash, and what stands
in the quotes so far. -/
def extractFrom : Bool → Bool → Text → Text → List Text
  | _, _, _, [] => []
  | inQuote, true, cur, ch :: rest => extractFrom inQuote false (cur ++ [ch]) rest
  | inQuote, false, cur, ch :: rest =>
    if ch = '\\' ∧ inQuote then extractFrom inQuote true cur rest
    else if ch = '"' then
      if inQuote then cur :: extractFrom false false [] rest else extractFrom true false cur rest
    else if inQuote then extractFrom inQuote false (cur ++ [ch]) rest
    else extractFrom inQuote false cur rest

/-- `extractQuoted`. -/
def extractQuoted (line : Text) : List Text := extractFrom false false [] line

/-- The scripts that a line names. -/
def scriptsOf (line : Text) : List ScriptInfo :=
  ((extractQuoted line).filter fun n => !L.equalFold n "ACTIVE".toList).map fun n =>
    ⟨n, (after "ACTIVE".toList (toUpper L line)).isSome⟩

/-- One script more: a name that is there already may become active. -/
def addScript (dedup : List ScriptInfo) (s : ScriptInfo) : List ScriptInfo :=
  if dedup.any (·.name == s.name) then
    dedup.map fun d => if d.name = s.name then { d with active := d.active || s.active } else d
  else dedup ++ [s]

/-- `ListScripts`. -/
def Link.listScripts (k : Link) : Link × Except Fault (List ScriptInfo) :=
  let (k', result) := k.command L "LISTSCRIPTS failed: "
  (k', result.map fun lines => (lines.flatMap (scriptsOf L)).foldl addScript [])

/-- `PutScript`. -/
def Link.putScript (name : Text) (k : Link) : Link × Except Fault (List Text) :=
  if name = [] then (k, .error .nameRequired) else k.command L "PUTSCRIPT failed: "

/-- `DeleteScript`. -/
def Link.deleteScript (name : Text) (k : Link) : Link × Except Fault (List Text) :=
  if name = [] then (k, .error .nameRequired) else k.command L "DELETESCRIPT failed: "

/-- `SetActive`. -/
def Link.setActive (k : Link) : Link × Except Fault (List Text) :=
  k.command L "SETACTIVE failed: "

/-- `CheckScript`. -/
def Link.checkScript (k : Link) : Link × Except Fault (List Text) :=
  k.command L "CHECKSCRIPT failed: "

/-- `HaveSpace`. -/
def Link.haveSpace (k : Link) : Link × Except Fault (List Text) :=
  k.command L "HAVESPACE failed: "

/-! ## GETSCRIPT -/

/-- What stands between the braces of a line that announces a literal. -/
def literalInner (line : Text) : Option Text :=
  if ['{'].isPrefixOf line && ['}'].isSuffixOf line then
    some (trimSuffix ['+'] line.tail.dropLast)
  else none

/-- Characters as octets; none outside ASCII is a digit. -/
def digitOctets (s : Text) : Octets :=
  s.map fun c => if c.toNat < 0x80 then c.toNat.toUInt8 else 0

/-- `strconv.Atoi`. -/
def atoi (s : Text) : Option Int :=
  let number : Option Int :=
    match s with
    | '-' :: digits => (parseDecimal (digitOctets digits)).map fun n : Nat => -(n : Int)
    | '+' :: digits => (parseDecimal (digitOctets digits)).map Int.ofNat
    | digits => (parseDecimal (digitOctets digits)).map Int.ofNat
  number.filter fun n => -2 ^ 63 ≤ n ∧ n < 2 ^ 63

/-- The longest buffer that `make` gives on a machine of 64 bits. -/
def maxAlloc : Nat := 2 ^ 48

/-- `readExact` into a buffer of this length, once a literal is announced. -/
def readLiteral (n : Int) (buf : Octets) (k : Link) : Link × (Octets ⊕ Except Fault Octets) :=
  if n < 0 ∨ (maxAlloc : Int) < n then (k, .inr (.error .panics))
  else if k.unread.length < n.toNat then
    ({ k with unread := [] }, .inr (.error (.read "GETSCRIPT read literal failed: ")))
  else ({ k with unread := k.unread.drop n.toNat }, .inl (buf ++ k.unread.take n.toNat))

/-- The text before the server's line when a script is not read. No character outside ASCII is
one of `not found` in lower case. -/
def scriptErr (line : Text) : String :=
  if (after "NONEXISTENT".toList line).isSome ∨
      (after "not found".toList (line.map Char.toLower)).isSome then
    "script not found: "
  else "GETSCRIPT failed: "

/-- The body of the loop of `GetScript`. -/
def onScript (line : Text) (buf : Octets) (k : Link) : Link × (Octets ⊕ Except Fault Octets) :=
  match literalInner line with
  | some inner =>
    match atoi (trimSpace inner) with
    | none => (k, .inr (.error (.badLiteral line)))
    | some n => if n = 0 then (k, .inl buf) else readLiteral n buf k
  | none =>
    (k, if isFinalLine L line then .inr (finalResult L (scriptErr line) buf line) else .inl buf)

/-- `GetScript`. -/
def Link.getScript (name : Text) (k : Link) : Link × Except Fault Octets :=
  if name = [] then (k, .error .nameRequired)
  else eachLine "GETSCRIPT read failed: " (onScript L) (k.turn.size + 1) [] k.turn

/-! ## The connection's own commands -/

/-- `doSTARTTLS`, up to the handshake. -/
def Link.startTLS (k : Link) : Link × Except Fault Unit :=
  match readLine k.turn.unread with
  | none => (k.turn, .error (.read "STARTTLS read failed: "))
  | some (line, rest) =>
    ({ k.turn with unread := rest },
      if "OK".toList.isPrefixOf (toUpper L (trimmed line)) then .ok ()
      else .error (.replied "STARTTLS rejected: " (trimmed line)))

/-- The body of the loops of `tryAuthenticate`: the challenges answered so far, and whether
one more is. -/
def onAuth (more : Nat → Bool) (line : Text) (step : Nat) (k : Link) :
    Link × (Nat ⊕ Except Fault Unit) :=
  if ['+'].isPrefixOf line then
    if more step then (k.turn, .inl (step + 1)) else (k, .inr (.error .challengeCount))
  else
    (k, if isFinalLine L line then .inr (finalResult L "sieve authentication failed: " () line)
      else .inl step)

/-- The challenges that are answered: two of LOGIN, any number of PLAIN. -/
def answersMore (mech : Text) (step : Nat) : Bool :=
  !L.equalFold mech "LOGIN".toList || decide (step < 2)

/-- `tryAuthenticate`. -/
def Link.authenticate (mech : Text) (k : Link) : Link × Except Fault Unit :=
  eachLine "sieve auth read failed: " (onAuth L (answersMore L mech)) (k.turn.size + 1) 0 k.turn

/-- The commands whose response is read. The greeting and the capabilities after a handshake
answer what goes before them. -/
inductive Command where
  | greeting
  | capability
  | startTLS
  | authenticate (mech : Text)
  | listScripts
  | getScript (name : Text)
  | putScript (name : Text)
  | deleteScript (name : Text)
  | setActive
  | checkScript
  | haveSpace
  deriving DecidableEq

/-- A result, for its success or failure alone. -/
def outcome (r : Link × Except Fault α) : Link × Except Fault Unit := (r.1, r.2.map fun _ => ())

/-- A command: how it leaves the link, and whether it fails. -/
def perform : Command → Link → Link × Except Fault Unit
  | .greeting, k => outcome (k.readBanner L)
  | .capability, k => outcome (k.capability L)
  | .startTLS, k => k.startTLS L
  | .authenticate mech, k => k.authenticate L mech
  | .listScripts, k => outcome (k.listScripts L)
  | .getScript name, k => outcome (k.getScript L name)
  | .putScript name, k => outcome (k.putScript L name)
  | .deleteScript name, k => outcome (k.deleteScript L name)
  | .setActive, k => outcome (k.setActive L)
  | .checkScript, k => outcome (k.checkScript L)
  | .haveSpace, k => outcome (k.haveSpace L)

/-! ## Responses -/

/-- The end of a line. -/
def lineEnd : Octets := [13, 10]

/-- A string of the protocol. -/
inductive Str where
  | quoted (s : Octets)
  | literal (s : Octets)
  deriving DecidableEq

/-- A quoted string with its backslashes. -/
def escapeQuoted (s : Octets) : Octets := s.flatMap fun b => if b = 34 ∨ b = 92 then [92, b] else [b]

/-- A string as it is sent. -/
def Str.octets : Str → Octets
  | .quoted s => 34 :: escapeQuoted s ++ [34]
  | .literal s => 123 :: decimal s.length ++ [125] ++ lineEnd ++ s

/-- A line of data: a string, two of them, or one with `ACTIVE`. -/
inductive Row where
  | single (s : Str)
  | pair (s t : Str)
  | active (s : Str)
  deriving DecidableEq

/-- What stands before the end of the line. -/
def Row.body : Row → Octets
  | .single s => s.octets
  | .pair s t => s.octets ++ 32 :: t.octets
  | .active s => s.octets ++ [32, 65, 67, 84, 73, 86, 69]

/-- A line of data as it is sent. -/
def Row.octets (row : Row) : Octets := row.body ++ lineEnd

/-- A word of a response code, or a string in it. -/
inductive CodeItem where
  | bare (s : Octets)
  | str (s : Str)
  deriving DecidableEq

/-- What is sent for it. -/
def CodeItem.octets : CodeItem → Octets
  | .bare s => s
  | .str s => s.octets

/-- The statuses. -/
inductive StatusWord where
  | ok
  | no
  | bye
  deriving DecidableEq

/-- Their names. -/
def StatusWord.name : StatusWord → Text
  | .ok => "OK".toList
  | .no => "NO".toList
  | .bye => "BYE".toList

/-- The line that ends a response. -/
structure Status where
  word : StatusWord
  /-- the word in upper and lower case letters as the server has them -/
  spelling : Octets
  code : Option (List CodeItem)
  text : Option Str
  deriving DecidableEq

/-- The items of a response code, with blanks between them. -/
def codeOctets : List CodeItem → Octets
  | [] => []
  | [item] => item.octets
  | item :: items => item.octets ++ 32 :: codeOctets items

/-- What follows the word of a status. -/
def Status.tail (st : Status) : Octets :=
  (match st.code with
    | none => []
    | some items => 32 :: 40 :: codeOctets items ++ [41]) ++
  (match st.text with
    | none => []
    | some text => 32 :: text.octets)

/-- A status as it is sent. -/
def Status.octets (st : Status) : Octets := st.spelling ++ st.tail ++ lineEnd

/-- What the server says to one command. -/
structure Response where
  rows : List Row
  status : Status
  deriving DecidableEq

/-- The server waits for an answer after each challenge, and sends everything else at once. -/
def Response.turns (r : Response) : Command → List Octets
  | .authenticate _ => r.rows.map Row.octets ++ [r.status.octets]
  | _ => [r.rows.flatMap Row.octets ++ r.status.octets]

/-! ## Conformance -/

/-- No line end and no zero in a quoted string, and a length that fits 32 bits for a literal. -/
def Str.Conforms : Str → Prop
  | .quoted s => ∀ b ∈ s, b ≠ 0 ∧ b ≠ 10 ∧ b ≠ 13
  | .literal s => s.length < 2 ^ 32

/-- A code is words of printable characters, and strings. -/
def CodeItem.Conforms : CodeItem → Prop
  | .bare s => ∀ b ∈ s, 33 ≤ b ∧ b < 127
  | .str s => s.Conforms

structure Status.Conforms (st : Status) : Prop where
  ascii : ∀ b ∈ st.spelling, b < 0x80
  spelling : (st.spelling.map fun b => (Char.ofNat b.toNat).toUpper) = st.word.name
  code : ∀ items ∈ st.code, ∀ item ∈ items, item.Conforms
  text : ∀ text ∈ st.text, text.Conforms

/-- The characters of base64. -/
def isBase64 (b : UInt8) : Bool :=
  (65 ≤ b && b ≤ 90) || (97 ≤ b && b ≤ 122) || (48 ≤ b && b ≤ 57) || b == 43 || b == 47 || b == 61

/-- What a string says. -/
def Str.content : Str → Octets
  | .quoted s => s
  | .literal s => s

/-- A challenge is a string in base64. -/
def Row.IsChallenge (row : Row) : Prop :=
  ∃ s, row = .single s ∧ s.Conforms ∧ ∀ b ∈ s.content, isBase64 b

/-- The lines of data that a command is answered with. -/
def RowsConform (word : StatusWord) (rows : List Row) : Command → Prop
  | .greeting | .capability => ∀ row ∈ rows, ∃ name : Str, name.Conforms ∧
      (row = .single name ∨ ∃ value : Str, value.Conforms ∧ row = .pair name value)
  | .listScripts => ∀ row ∈ rows, ∃ name : Str, name.Conforms ∧ (row = .single name ∨ row = .active name)
  | .getScript _ =>
    if word = .ok then ∃ script : Str, script.Conforms ∧ rows = [.single script] else rows = []
  | .authenticate _ => ∀ row ∈ rows, row.IsChallenge
  | _ => rows = []

/-- A command with a name needs one, or nothing is sent. -/
def Command.Issued : Command → Prop
  | .getScript name | .putScript name | .deleteScript name => name ≠ []
  | _ => True

/-- A command and the response to it. -/
structure Exchange where
  command : Command
  response : Response
  deriving DecidableEq

structure Exchange.Conforms (x : Exchange) : Prop where
  issued : x.command.Issued
  status : x.response.status.Conforms
  rows : RowsConform x.response.status.word x.response.rows x.command

/-! ## Framing -/

/-- The client learns the status: success for `OK`, and else the server's line, with its word
in front. -/
def Reports (word : StatusWord) (result : Except Fault Unit) : Prop :=
  match word with
  | .ok => result = .ok ()
  | _ => ∃ before line, result = .error (.replied before line) ∧
      word.name.isPrefixOf (toUpper L line)

/-- The link with the response to the next command under way. -/
def Link.expect (k : Link) (x : Exchange) : Link :=
  { k with coming := k.coming ++ x.response.turns x.command }

/-- From this link on, every command reads exactly its response and reports its status. -/
def Framed : Link → List Exchange → Prop
  | _, [] => True
  | k, x :: rest =>
    (perform L x.command (k.expect x)).1 = ⟨[], []⟩ ∧
      Reports L x.response.status.word (perform L x.command (k.expect x)).2 ∧
      Framed (perform L x.command (k.expect x)).1 rest

/-- Sent as a literal. -/
def Str.IsLiteral : Str → Prop
  | .quoted _ => False
  | .literal _ => True

/-- Nothing after the word of a status is sent as a literal. -/
def Status.NoLiteral (st : Status) : Prop :=
  (∀ items ∈ st.code, ∀ s, .str s ∈ items → ¬s.IsLiteral) ∧ ∀ text ∈ st.text, ¬text.IsLiteral

/-- The lines that a row of data is for a client that looks for line ends alone. -/
def Row.lines (row : Row) : List Octets := (pieces (row.body ++ [13])).map dropCR

/-- A challenge that the client answers: a literal with a plus sign in front. -/
def Row.Answered (row : Row) : Prop := ∃ data, row = .single (.literal (43 :: data))

/-- The rows hold nothing that the client takes for something else. -/
def RowsPlain (rows : List Row) : Command → Prop
  | .getScript _ => True
  | .authenticate mech => (∀ row ∈ rows, row.Answered) ∧
      (L.equalFold mech "LOGIN".toList → rows.length ≤ 2)
  | _ => ∀ row ∈ rows, ∀ line ∈ row.lines, isFinalLine L (trimmed line) = false

/-- A response that the client can read. -/
structure Exchange.Plain (x : Exchange) : Prop where
  noLiteral : x.response.status.NoLiteral
  notBye : x.response.status.word = .bye → x.command = .startTLS
  rows : RowsPlain L x.response.rows x.command

end E2Mail.ManageSieve
