import E2Mail.Backend.World
import E2Mail.Lib.Effect
import E2Mail.Lib.NetAddr

/-!
# The ManageSieve client

How the backend connects to a ManageSieve server: the greeting on the plain
connection, STARTTLS and the handshake, the capabilities after it, and the
authentication.

The server is whatever it does: what each read of a line returns on the plain
connection and on the one behind the handshake, whether the handshake succeeds, and
which writes fail. Every byte stream of a server is one of these.

* `Event` — what happens on the connection, in its order.
* `dial` — `Dial`.
-/

namespace E2Mail.ManageSieve

open Lib Lib.Text Lib.NetAddr Lib.Effect
open Backend (isSpace)

/-- A text on the wire. -/
abbrev Text := List Char

/-! ## The connection -/

/-- What the client takes from the standard library's tables. -/
structure TextLib where
  /-- `unicode.ToUpper` -/
  toUpper : Char → Char
  /-- `strings.EqualFold` -/
  equalFold : Text → Text → Bool
  /-- `base64.StdEncoding.EncodeToString` -/
  base64Token : Text → Text

/-- `Config`. -/
structure Config where
  host : Text
  port : Nat
  useTLS : Bool
  allowInsecureTLS : Bool
  username : Text
  password : Text

/-- The fields of `tls.Config` that the client sets. -/
structure TLSConfig where
  serverName : Text
  insecureSkipVerify : Bool

/-- The other end of a connection: what the reads of a line return, until there is nothing
more to come, and the errors of the writes. -/
structure Peer where
  lines : List (Except String Text)
  writeErrs : List (Option String)

/-- A server, as the client meets it. -/
structure Server where
  /-- the error of the TCP dial -/
  dialErr : Option String
  /-- the connection before the handshake -/
  plain : Peer
  /-- `tlsConn.Handshake()`: an error, or the connection behind it -/
  handshake : TLSConfig → Except String Peer

/-- The connection in use, with the reader on it: `*tls.Conn` or not, and its other end. -/
structure Conn where
  isTLS : Bool
  peer : Peer

/-- What happens on a connection; the flag tells whether it is the one behind a handshake. -/
inductive Event where
  /-- bytes handed to the connection, whether or not the write failed -/
  | wrote (tls : Bool) (bytes : Text)
  | received (tls : Bool) (line : Text)
  | readError (tls : Bool)
  | handshake (ok : Bool)
  | closed

/-- `Client`. -/
structure Client where
  conn : Conn
  /-- `caps` -/
  caps : Text → Option Text
  /-- `sasl` -/
  sasl : List Text
  /-- `tlsCap` -/
  tlsCap : Bool

/-- What a method of the client does. -/
abbrev Net (α : Type) : Type := Effect Client String Event α

variable (L : TextLib)

/-- The end of a line. -/
def crlf : Text := "\r\n".toList

/-- `writeRaw`. -/
def writeRaw (bytes : Text) : Net Unit := fun c =>
  let c' := { c with conn := { c.conn with peer.writeErrs := c.conn.peer.writeErrs.tail } }
  match c.conn.peer.writeErrs with
  | some err :: _ => ⟨.error err, c', [.wrote c.conn.isTLS bytes]⟩
  | _ => ⟨.ok (), c', [.wrote c.conn.isTLS bytes]⟩

/-- `cfmtf`. -/
def cfmtf (line : Text) : Net Unit := writeRaw (line ++ crlf)

/-- `cline`. -/
def cline : Net Text := fun c =>
  let c' := { c with conn := { c.conn with peer.lines := c.conn.peer.lines.tail } }
  match c.conn.peer.lines with
  | [] => ⟨.error "EOF", c', [.readError c.conn.isTLS]⟩
  | .error err :: _ => ⟨.error err, c', [.readError c.conn.isTLS]⟩
  | .ok line :: _ => ⟨.ok line, c', [.received c.conn.isTLS line]⟩

/-! ## Lines -/

/-- `strings.TrimSpace`. -/
def trimSpace (s : Text) : Text := trimBy isSpace s

/-- `strings.ToUpper`. -/
def toUpper (s : Text) : Text := s.map L.toUpper

/-- `strings.Fields`. -/
def fields (s : Text) : List Text := (splitBy isSpace s).filter (· ≠ [])

/-- `isFinalLine`. -/
def isFinalLine (line : Text) : Bool :=
  ["OK", "NO", "BAD"].any fun p =>
    toUpper L line == p.toList || (p.toList ++ [' ']).isPrefixOf (toUpper L line) ||
      (p.toList ++ ['\t']).isPrefixOf (toUpper L line)

/-- `isFailureLine`. -/
def isFailureLine (line : Text) : Bool :=
  "NO".toList.isPrefixOf (toUpper L line) || "BAD".toList.isPrefixOf (toUpper L line)

/-- A loop over lines that ends with an error or when its body says so. Every turn reads a
line, so one turn more than there are lines to come is enough. -/
def overLines {κ : Type} (readErr : String) (body : Text → κ → Net (κ ⊕ Unit)) : Nat → κ → Net Unit
  | 0, _ => fail (readErr ++ "EOF")
  | turns + 1, k => do
    let line ← cline.mapError (readErr ++ ·)
    if trimSpace line = [] then overLines readErr body turns k
    else
      match ← body (trimSpace line) k with
      | .inl k' => overLines readErr body turns k'
      | .inr () => pure ()

/-- The turns that a loop needs at most. -/
def turns : Net Nat := do
  let c ← Effect.get
  pure (c.conn.peer.lines.length + 1)

/-- The body of `readUntilFinal`. -/
def untilFinal (onLine : Client → Text → Client) (line : Text) (_ : Unit) : Net (Unit ⊕ Unit) :=
  if isFinalLine L line then
    if isFailureLine L line then fail ("server replied: " ++ String.ofList line)
    else pure (.inr ())
  else do
    Effect.modify fun c => onLine c line
    pure (.inl ())

/-- `readUntilFinal`. -/
def readUntilFinal (onLine : Client → Text → Client) : Net Unit := do
  overLines "sieve read failed: " (untilFinal L onLine) (← turns) ()

/-! ## Capabilities -/

/-- `parseCapLine` on a quoted name and what stands after it. -/
def parseQuotedCap (c : Client) (key rest : Text) : Client :=
  let val :=
    match rest with
    | '"' :: inner => if inner = [] then [] else inner.dropLast
    | rest => trimBy (· == '"') rest
  { c with
    caps := fun name => if name = toUpper L key then some val else c.caps name
    sasl := if L.equalFold key "SASL".toList then fields val else c.sasl
    tlsCap := c.tlsCap || L.equalFold key "STARTTLS".toList }

/-- `parseCapLine` on a line without a quoted name. -/
def parseBareCap (c : Client) (line : Text) : Client :=
  { c with
    tlsCap := c.tlsCap || toUpper L (trimBy (· == '"') line) == "STARTTLS".toList }

/-- `parseCapLine`. -/
def parseCapLine (c : Client) (line : Text) : Client :=
  match trimSpace line with
  | [] => c
  | '"' :: inner =>
    match inner.dropWhile (· != '"') with
    | [] => parseBareCap L c ('"' :: inner)
    | _ :: rest => parseQuotedCap L c (inner.takeWhile (· != '"')) (trimSpace rest)
  | line => parseBareCap L c line

/-- `readBanner`. -/
def readBanner : Net Unit := readUntilFinal L (parseCapLine L)

/-- `Capability`. -/
def capability : Net Unit := do
  cfmtf "CAPABILITY".toList
  readUntilFinal L (parseCapLine L)

/-- `readPostTLSCapabilities`: what the server sends by itself, and if that is missing, failed or
has no SASL, what it answers when it is asked. -/
def readPostTLSCapabilities : Net Unit := do
  match ← (readUntilFinal L (parseCapLine L)).attempt with
  | .ok () => do
    let c ← Effect.get
    if c.sasl ≠ [] then pure () else capability L
  | .error err => (capability L).mapError fun _ => err

/-! ## STARTTLS -/

/-- `sieveTLSConfig`. -/
def sieveTLSConfig (cfg : Config) : TLSConfig where
  serverName := if (parseIP cfg.host).isSome then [] else cfg.host
  insecureSkipVerify := cfg.allowInsecureTLS

/-- The handshake on the connection; a new reader takes over, with nothing of the old one. -/
def handshake (cfg : Config) (s : Server) : Net Unit := fun c =>
  match s.handshake (sieveTLSConfig cfg) with
  | .error err => ⟨.error ("TLS handshake failed: " ++ err), c, [.handshake false]⟩
  | .ok peer => ⟨.ok (), { c with conn := ⟨true, peer⟩ }, [.handshake true]⟩

/-- `doSTARTTLS`. -/
def doSTARTTLS (cfg : Config) (s : Server) : Net Unit := do
  (cfmtf "STARTTLS".toList).mapError ("STARTTLS write failed: " ++ ·)
  let line ← cline.mapError ("STARTTLS read failed: " ++ ·)
  if "OK".toList.isPrefixOf (toUpper L (trimSpace line)) then handshake cfg s
  else fail ("STARTTLS rejected: " ++ String.ofList (trimSpace line))

/-! ## Authentication -/

/-- The end of a round of `tryAuthenticate`, on a line that is no challenge. -/
def authLine {κ : Type} (line : Text) (k : κ) : Net (κ ⊕ Unit) :=
  if isFinalLine L line then
    if isFailureLine L line then fail ("sieve authentication failed: " ++ String.ofList line)
    else pure (.inr ())
  else do
    Effect.modify fun c => parseCapLine L c line
    pure (.inl k)

/-- A round of LOGIN, with the number of challenges answered. -/
def loginLine (username password : Text) (line : Text) (step : Nat) : Net (Nat ⊕ Unit) :=
  if ['+'].isPrefixOf line then
    match step with
    | 0 => do
      writeRaw (L.base64Token username ++ crlf)
      pure (.inl 1)
    | 1 => do
      writeRaw (L.base64Token password ++ crlf)
      pure (.inl 2)
    | _ => fail "sieve LOGIN got unexpected challenge count"
  else authLine L line step

/-- A round of PLAIN. -/
def plainLine (plainToken : Text) (line : Text) (k : Unit) : Net (Unit ⊕ Unit) :=
  if ['+'].isPrefixOf line then do
    writeRaw (plainToken ++ crlf)
    pure (.inl ())
  else authLine L line k

/-- `tryAuthenticate`. -/
def tryAuthenticate (mech username password : Text) : Net Unit :=
  let nul := [Char.ofNat 0]
  let plainToken := L.base64Token (nul ++ username ++ nul ++ password)
  if L.equalFold mech "LOGIN".toList then do
    cfmtf "AUTHENTICATE \"LOGIN\"".toList
    overLines "sieve auth read failed: " (loginLine L username password) (← turns) 0
  else do
    cfmtf ("AUTHENTICATE \"PLAIN\" \"".toList ++ plainToken ++ ['"'])
    overLines "sieve auth read failed: " (plainLine L plainToken) (← turns) ()

/-- The mechanisms that `authenticate` tries, by what the server has named. -/
def tryMechs (sasl : List Text) : List Text :=
  let hasPlain := sasl.any fun m => L.equalFold m "PLAIN".toList
  let hasLogin := sasl.any fun m => L.equalFold m "LOGIN".toList
  if hasPlain && hasLogin then ["PLAIN".toList, "LOGIN".toList]
  else if hasLogin then ["LOGIN".toList]
  else ["PLAIN".toList]

/-- The loops of `authenticate`, over user names and mechanisms. -/
def tryEach (password : Text) : List (Text × Text) → String → Net Unit
  | [], lastErr => fail ("sieve authentication failed: " ++ lastErr)
  | (username, mech) :: rest, _ => do
    match ← (tryAuthenticate L mech username password).attempt with
    | .ok () => pure ()
    | .error err => tryEach password rest err

/-- `authenticate`. -/
def authenticate (username password : Text) : Net Unit :=
  if username = [] ∨ password = [] then fail "sieve username/password required"
  else do
    let c ← Effect.get
    -- the whole address, and what stands before its `@`
    let usernames :=
      if '@' ∈ username then [username, username.takeWhile (· != '@')] else [username]
    tryEach L password (usernames.flatMap fun u => (tryMechs L c.sasl).map fun mech => (u, mech)) ""

/-! ## Connecting -/

/-- `Close`. -/
def close : Net Unit := do
  let _ ← (cfmtf "LOGOUT".toList).attempt
  fun c => ⟨.ok (), c, [.closed]⟩

/-- A step of `Dial` that closes the connection when it fails. -/
def orClose (m : Net Unit) : Net Unit := do
  match ← m.attempt with
  | .ok () => pure ()
  | .error err => do
    close
    fail err

/-- `addr`. -/
def Config.addr (cfg : Config) : String :=
  let port := toString (if cfg.port = 0 then 4190 else cfg.port)
  let host := String.ofList cfg.host
  if ':' ∈ cfg.host then "[" ++ host ++ "]:" ++ port else host ++ ":" ++ port

/-- What a plain connection goes through before the authentication. -/
def secure (cfg : Config) (s : Server) : Net Unit := do
  let c ← Effect.get
  if c.tlsCap then do
    (doSTARTTLS L cfg s).mapError ("sieve STARTTLS failed " ++ cfg.addr ++ ": " ++ ·)
    Effect.modify fun c => { c with caps := fun _ => none, sasl := [], tlsCap := false }
    (readPostTLSCapabilities L).mapError
      ("sieve post-STARTTLS capability failed " ++ cfg.addr ++ ": " ++ ·)
  else fail ("sieve " ++ cfg.addr ++ " does not offer STARTTLS (plaintext is not allowed)")

/-- `Dial` on a connection. -/
def connect (cfg : Config) (s : Server) : Net Unit := do
  (readBanner L).mapError ("sieve banner failed " ++ cfg.addr ++ ": " ++ ·)
  let c ← Effect.get
  if c.conn.isTLS then pure () else secure L cfg s
  authenticate L cfg.username cfg.password

/-- The client on a new TCP connection. -/
def newClient (s : Server) : Client := ⟨⟨false, s.plain⟩, fun _ => none, [], false⟩

/-- `Dial`. -/
def dial (cfg : Config) (s : Server) : Outcome Client String Event Unit :=
  if cfg.host = [] then ⟨.error "sieve host is empty", newClient s, []⟩
  else
    match s.dialErr with
    | some err => ⟨.error ("sieve dial failed " ++ cfg.addr ++ ": " ++ err), newClient s, []⟩
    | none => orClose (connect L cfg s) (newClient s)

end E2Mail.ManageSieve
