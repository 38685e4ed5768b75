import Mathlib.Data.List.Infix
import E2Mail.Lib.Failure
import E2Mail.Lib.Lines
import E2Mail.Lib.Text
import E2Mail.Backend.World

/-!
# Sending a message

The sender builds the message, and hands it to an SMTP server with an envelope. The header is
made from what `ParseAddress` accepts; the envelope also from what it does not.

* `BuildMIMEMessage`, `Send` — the message and its envelope.
* `ShownIffSent` — who gets the message is shown, and who is shown gets it.
* `shownIffSent_iff` — when it is so.
* `SevenBit` — what is labelled `7bit` is.
* `sevenBit_iff` — when it is.
-/

namespace E2Mail.Smtp

open Lib Lib.Text Lib.Failure
open Backend (isSpace)

/-- A string of the server. -/
abbrev Text := List Char

/-! ## Messages -/

/-- `OutgoingAttachment`. -/
structure OutgoingAttachment where
  filename : Text
  contentType : Text
  data : Octets
  deriving DecidableEq

/-- `OutgoingMessage`. -/
structure OutgoingMessage where
  from_ : Text := []
  to_ : List Text := []
  cc : List Text := []
  bcc : List Text := []
  subject : Text := []
  inReplyTo : Text := []
  references : Text := []
  textBody : Text := []
  htmlBody : Text := []
  attachments : List OutgoingAttachment := []
  deriving DecidableEq

/-- `mail.Address`. -/
structure Address where
  name : Text
  address : Text
  deriving DecidableEq

/-- What a field of the header is set to. -/
inductive Field where
  /-- `SetAddressList` -/
  | addresses (list : List Address)
  | text (value : Text)
  deriving DecidableEq

/-- The header of the message. -/
abbrev Header := List (Text × Field)

/-- The header of a part. -/
structure PartHeader where
  contentType : Text
  /-- `Content-Transfer-Encoding`, where the sender sets it -/
  transferEncoding : Option Text
  /-- `SetFilename` -/
  filename : Option Text
  deriving DecidableEq

/-- A part and what is written to it. -/
structure Part where
  header : PartHeader
  body : Octets
  deriving DecidableEq

/-- What is created in the message. -/
inductive Piece where
  /-- `CreateInline` -/
  | inline (parts : List Part)
  /-- `CreateSingleInline` -/
  | singleInline (part : Part)
  /-- `CreateAttachment` -/
  | attachment (part : Part)
  deriving DecidableEq

/-- The message that has been built. -/
structure Mime where
  header : Header
  pieces : List Piece
  deriving DecidableEq

/-- The parts of a piece. -/
def Piece.parts : Piece → List Part
  | .inline parts => parts
  | .singleInline part => [part]
  | .attachment part => [part]

/-- The parts of the message. -/
def Mime.parts (m : Mime) : List Part := m.pieces.flatMap Piece.parts

/-! ## Building -/

/-- What the sender takes from its libraries. -/
structure MailLib where
  /-- `mail.ParseAddress` -/
  parseAddress : Text → Option Address
  /-- `time.Now`, as `SetDate` writes it -/
  date : Text
  /-- `mime.QEncoding.Encode` -/
  qEncode : Text → Text
  /-- the error of `CreateWriter` -/
  writerErr : Header → Option Text
  /-- the error of `CreateInline` -/
  inlineErr : Option Text
  /-- the error of `CreatePart`, `CreateSingleInline` and `CreateAttachment` -/
  partErr : PartHeader → Option Text
  /-- the error of `Close` -/
  closeErr : List Piece → Option Text

/-- An error, if there is one, with what is said before it. -/
def check (what : String) : Option Text → Except Text Unit
  | none => .ok ()
  | some err => .error (what.toList ++ err)

/-- The bytes of a text. -/
def utf8 (s : Text) : Octets := s.flatMap String.utf8EncodeChar

variable (L : MailLib)

/-- The field of the sender. -/
def fromField (raw : Text) : Field :=
  match L.parseAddress raw with
  | some parsed => .addresses [parsed]
  | none => .text raw

/-- A field of recipients: those that can be parsed, if there are any. -/
def addressField (name : String) (entries : List Text) : Header :=
  match entries.filterMap L.parseAddress with
  | [] => []
  | list => [(name.toList, .addresses list)]

/-- A field that is left out when it is empty. -/
def textField (name : String) (value : Text) : Header :=
  if value ≠ [] then [(name.toList, .text value)] else []

/-- The header. -/
def mailHeader (msg : OutgoingMessage) : Header :=
  [("Date".toList, .text L.date), ("Subject".toList, .text msg.subject),
    ("From".toList, fromField L msg.from_)] ++ addressField L "To" msg.to_ ++
      addressField L "Cc" msg.cc ++ textField "In-Reply-To" msg.inReplyTo ++
        textField "References" msg.references

/-- `-----BEGIN PGP`. -/
def pgpMark : Text := "-----BEGIN PGP".toList

/-- `isPgp`. -/
def isPgp (msg : OutgoingMessage) : Bool := decide (pgpMark <:+: msg.textBody)

/-- A text in an encoding that the library chooses. -/
def encodedPart (contentType : String) (body : Text) : Part :=
  ⟨⟨contentType.toList, none, none⟩, utf8 body⟩

/-- `normalizedBody`. -/
def normalizedBody (body : Text) : Text :=
  replaceAll ['\n'] ['\r', '\n'] (replaceAll ['\r', '\n'] ['\n'] body)

/-- The text as it is. -/
def plainPart (body : Text) : Part :=
  ⟨⟨"text/plain; charset=UTF-8".toList, some "7bit".toList, none⟩, utf8 (normalizedBody body)⟩

/-- The body: in two forms, as HTML, or as the text it is. -/
def bodyPiece (msg : OutgoingMessage) : Except Text Piece := do
  if !isPgp msg && msg.htmlBody ≠ [] && msg.textBody ≠ [] then
    check "" L.inlineErr
    let text := encodedPart "text/plain; charset=UTF-8" msg.textBody
    check "" (L.partErr text.header)
    let html := encodedPart "text/html; charset=UTF-8" msg.htmlBody
    check "" (L.partErr html.header)
    return .inline [text, html]
  else if !isPgp msg && msg.htmlBody ≠ [] then
    let html := encodedPart "text/html; charset=UTF-8" msg.htmlBody
    check "" (L.partErr html.header)
    return .singleInline html
  else
    let text := plainPart msg.textBody
    check "" (L.partErr text.header)
    return .singleInline text

/-- A part for an attachment. -/
def attachmentPart (att : OutgoingAttachment) : Part :=
  let cType := if att.contentType = [] then "application/octet-stream".toList else att.contentType
  ⟨⟨cType, none, some (L.qEncode att.filename)⟩, att.data⟩

/-- An attachment. -/
def attachmentPiece (att : OutgoingAttachment) : Except Text Piece := do
  check "" (L.partErr (attachmentPart L att).header)
  return .attachment (attachmentPart L att)

/-- `BuildMIMEMessage`. -/
def buildMIMEMessage (msg : OutgoingMessage) : Except Text Mime := do
  check "failed to create mail writer: " (L.writerErr (mailHeader L msg))
  let body ← bodyPiece L msg
  let attachments ← msg.attachments.mapM (attachmentPiece L)
  check "failed to close mail writer: " (L.closeErr (body :: attachments))
  return ⟨mailHeader L msg, body :: attachments⟩

/-! ## The envelope -/

/-- `strings.TrimSpace`. -/
def trimSpace (s : Text) : Text := trimBy isSpace s

/-- `<> \t\r\n`. -/
def isCut (c : Char) : Bool := "<> \t\r\n".toList.contains c

/-- What an address that cannot be parsed is taken for: what stands between the angle brackets,
or what is left without brackets at the ends. -/
def salvage (raw : Text) : Text :=
  match raw.idxOf? '<', raw.idxOf? '>' with
  | some start, some stop =>
    if start < stop then trimSpace ((raw.take stop).drop (start + 1)) else trimBy isCut raw
  | _, _ => trimBy isCut raw

/-- `extractBareEmail`. -/
def extractBareEmail (raw : Text) : Text :=
  let raw := trimSpace raw
  match L.parseAddress raw with
  | some parsed => if parsed.address ≠ [] then parsed.address else salvage raw
  | none => salvage raw

/-- The recipients that are left of a list. -/
def cleanRecipients (entries : List Text) : List Text :=
  (entries.map (extractBareEmail L)).filter fun bare => bare ≠ []

/-- `SMTPConfig`. -/
structure SMTPConfig where
  host : Text
  port : Nat
  useTLS : Bool
  allowInsecureTLS : Bool
  username : Text
  password : Text

/-- `tls.Config`. -/
structure TLSConfig where
  serverName : Text
  insecureSkipVerify : Bool

/-- A server, by the errors of the commands it gets. -/
structure Client where
  /-- `Extension("AUTH")`, in upper case -/
  auth : Option Text
  /-- the error of `PlainAuth` -/
  plainAuth : SMTPConfig → Option Text
  /-- the error of `LoginAuth` -/
  loginAuth : SMTPConfig → Option Text
  /-- the error of `MAIL FROM` -/
  mail : Text → Option Text
  /-- the error of `RCPT TO` -/
  rcpt : Text → Option Text
  /-- the error of `DATA`, of the writing and of its end -/
  data : Option Text
  write : Mime → Option Text
  finish : Option Text

/-- The error of the authentication. -/
def Client.authErr (c : Client) (config : SMTPConfig) : Option Text :=
  if config.username ≠ [] ∧ config.password ≠ [] then
    match c.auth with
    | none => none
    | some mech =>
      if "PLAIN".toList <:+: mech then c.plainAuth config
      else if "LOGIN".toList <:+: mech then c.loginAuth config
      else if (c.plainAuth config).isSome then c.loginAuth config
      else none
  else none

/-- The network: the errors of its connections, and what is connected. -/
structure Network where
  /-- the error of `tls.Dial` -/
  tlsDialErr : Text → TLSConfig → Option Text
  /-- `NewClient` -/
  newClient : Text → Except Text Client
  /-- `smtp.Dial`, and whether the server has STARTTLS -/
  dial : Text → Except Text Bool
  /-- `StartTLS` -/
  startTLS : TLSConfig → Except Text Client

/-- `smtpTLSConfig`. -/
def smtpTLSConfig (config : SMTPConfig) : TLSConfig := ⟨config.host, config.allowInsecureTLS⟩

/-- `dialSMTPClient`. -/
def dialSMTPClient (N : Network) (config : SMTPConfig) : Except Text Client := do
  let addr := config.host ++ ':' :: (toString config.port).toList
  if config.port = 465 then
    check ("SMTP TLS dial failed to " ++ String.ofList addr ++ ": ")
      (N.tlsDialErr addr (smtpTLSConfig config))
    (N.newClient config.host).mapError ("SMTP TLS client init failed: ".toList ++ ·)
  else
    let ok ← (N.dial addr).mapError (("SMTP connection failed to ".toList ++ addr ++ ": ".toList) ++ ·)
    if !ok then
      throw ("SMTP server ".toList ++ addr ++ " does not offer STARTTLS (plaintext is not allowed)".toList)
    (N.startTLS (smtpTLSConfig config)).mapError
      (("SMTP STARTTLS negotiation failed on ".toList ++ addr ++ ": ".toList) ++ ·)

/-- `RCPT TO`: the recipient that the server has accepted. -/
def rcptTo (client : Client) (rcpt : Text) : Except Text Text := do
  check ("SMTP RCPT TO <" ++ String.ofList rcpt ++ "> rejected by server: ") (client.rcpt rcpt)
  return rcpt

/-- What a server has taken. -/
structure Sent where
  fromBare : Text
  /-- the recipients of `RCPT TO` -/
  recipients : List Text
  mime : Mime
  deriving DecidableEq

/-- `Send`. -/
def send (N : Network) (config : SMTPConfig) (msg : OutgoingMessage) : Except Text Sent := do
  let rawMIME ← (buildMIMEMessage L msg).mapError ("failed to build MIME message: ".toList ++ ·)
  let fromBare := extractBareEmail L msg.from_
  if fromBare = [] then throw "sender (from) address is invalid or empty".toList
  let recipients := cleanRecipients L (msg.to_ ++ msg.cc ++ msg.bcc)
  if recipients = [] then throw "no valid recipient addresses specified".toList
  let client ← dialSMTPClient N config
  check ("SMTP authentication failed for user " ++ String.ofList config.username ++ ": ")
    (client.authErr config)
  check ("SMTP MAIL FROM <" ++ String.ofList fromBare ++ "> rejected by server: ") (client.mail fromBare)
  let accepted ← recipients.mapM (rcptTo client)
  check "SMTP DATA command failed: " client.data
  check "SMTP write mail body failed: " (client.write rawMIME)
  check "SMTP finish DATA failed: " client.finish
  return ⟨fromBare, accepted, rawMIME⟩

/-! ## What is built -/

section Built

variable {L : MailLib} {msg : OutgoingMessage} {m : Mime}

theorem bodyPiece_ok {body : Piece} (h : bodyPiece L msg = .ok body) :
    (isPgp msg = true ∨ msg.htmlBody = []) ∧ body = .singleInline (plainPart msg.textBody) ∨
      ¬(isPgp msg = true ∨ msg.htmlBody = []) ∧ ∀ p ∈ body.parts, p.header.transferEncoding = none := by
  rw [bodyPiece] at h
  split at h
  · rename_i hboth
    obtain ⟨_, -, h⟩ := bind_eq_ok h
    obtain ⟨_, -, h⟩ := bind_eq_ok h
    obtain ⟨_, -, h⟩ := bind_eq_ok h
    cases h
    right
    simp at hboth
    exact ⟨by simp [hboth], by simp [Piece.parts, encodedPart]⟩
  · split at h
    · rename_i hhtml
      obtain ⟨_, -, h⟩ := bind_eq_ok h
      cases h
      right
      simp at hhtml
      exact ⟨by simp [hhtml], by simp [Piece.parts, encodedPart]⟩
    · rename_i hplain
      obtain ⟨_, -, h⟩ := bind_eq_ok h
      cases h
      left
      refine ⟨?_, rfl⟩
      rw [or_iff_not_imp_left]
      simpa using hplain

/-- **The message**: its header, the body, and the attachments. -/
theorem buildMIMEMessage_ok (h : buildMIMEMessage L msg = .ok m) :
    ∃ body, bodyPiece L msg = .ok body ∧
      m = ⟨mailHeader L msg, body :: msg.attachments.map fun att => .attachment (attachmentPart L att)⟩ := by
  obtain ⟨_, -, h⟩ := bind_eq_ok h
  obtain ⟨body, hbody, h⟩ := bind_eq_ok h
  obtain ⟨attachments, hattachments, h⟩ := bind_eq_ok h
  obtain ⟨_, -, h⟩ := bind_eq_ok h
  cases h
  have hpiece : ∀ att piece, attachmentPiece L att = .ok piece →
      piece = .attachment (attachmentPart L att) := by
    intro att piece hpiece
    obtain ⟨_, -, hpiece⟩ := bind_eq_ok hpiece
    cases hpiece
    rfl
  exact ⟨body, hbody, by rw [eq_map_of_mapM hpiece hattachments]⟩

end Built

/-! ## Who gets it and who is shown -/

/-- A field of the header has the address, or a text that it stands in. -/
def Occurs (address : Text) : Field → Prop
  | .addresses list => ∃ p ∈ list, p.address = address ∨ address <:+: p.name
  | .text value => address <:+: value

/-- The header shows the address as one of `To` or `Cc`. -/
def Shown (header : Header) (address : Text) : Prop :=
  ∃ name ∈ ["To".toList, "Cc".toList], ∃ list, (name, Field.addresses list) ∈ header ∧
    ∃ p ∈ list, p.address = address

/-- The server was told of the address, for an entry of the list. -/
def Receives (L : MailLib) (sent : Sent) (entries : List Text) (address : Text) : Prop :=
  address ∈ sent.recipients ∧ ∃ e ∈ entries, extractBareEmail L e = address

/-- **Who gets the message is shown, and who is shown gets it**; but nobody of `Bcc` is. -/
structure ShownIffSent (L : MailLib) (msg : OutgoingMessage) (sent : Sent) : Prop where
  shown_iff : ∀ address, Shown sent.mime.header address ↔ Receives L sent (msg.to_ ++ msg.cc) address
  hidden : ∀ address, Receives L sent msg.bcc address → ∀ field ∈ sent.mime.header, ¬Occurs address field.2
  /-- The server was told of nobody else. -/
  listed : ∀ address ∈ sent.recipients, Receives L sent (msg.to_ ++ msg.cc ++ msg.bcc) address

/-- An entry is read as an address. -/
def Reads (L : MailLib) (entry address : Text) : Prop :=
  ∃ p, L.parseAddress entry = some p ∧ p.address = address

/-- What stands between the first angle brackets. -/
def Between (raw inner : Text) : Prop :=
  ∃ pre post, raw = pre ++ '<' :: (inner ++ '>' :: post) ∧ '<' ∉ pre ∧ '>' ∉ pre ++ inner

/-- What a text that is not read leaves: the text between its brackets, or all of it but the
brackets at its ends. -/
inductive Leaves (raw : Text) : Text → Prop where
  | between {inner : Text} (h : Between raw inner) : Leaves raw (trimSpace inner)
  | ends (h : ∀ inner, ¬Between raw inner) : Leaves raw (trimBy isCut raw)

/-- Without the blanks at its ends, the entry is not read. -/
def Unread (L : MailLib) (entry : Text) : Prop :=
  ∀ p, L.parseAddress (trimSpace entry) = some p → p.address = []

/-- An entry names an address for the envelope: the one that is read without the blanks at its
ends, or what it leaves. -/
inductive Names (L : MailLib) (entry : Text) : Text → Prop where
  | trimmed {p : Address} (h : L.parseAddress (trimSpace entry) = some p) (hne : p.address ≠ []) :
      Names L entry p.address
  | left {address : Text} (h : Unread L entry) (hleft : Leaves (trimSpace entry) address)
      (hne : address ≠ []) : Names L entry address

/-- An entry does no harm. -/
inductive Fair (L : MailLib) (entries : List Text) (entry : Text) : Prop where
  /-- It is read as the same address with the blanks at its ends and without them. -/
  | read {p q : Address} (h : L.parseAddress entry = some p)
      (htrim : L.parseAddress (trimSpace entry) = some q) (hne : q.address ≠ [])
      (hsame : q.address = p.address)
  /-- It is read with the blanks only, and leaves the same address. -/
  | left {p : Address} (h : L.parseAddress entry = some p) (htrim : Unread L entry)
      (hleft : Leaves (trimSpace entry) p.address) (hne : p.address ≠ [])
  /-- It is not read, and leaves nothing. -/
  | void (h : L.parseAddress entry = none) (htrim : Unread L entry)
      (hleft : Leaves (trimSpace entry) [])
  /-- It is not read, and what it names is read from another entry. -/
  | missed {address : Text} (h : L.parseAddress entry = none) (hnames : Names L entry address)
      (hreads : ∃ e ∈ entries, Reads L e address)
  /-- It is read as what it does not name; other entries name that, and are read as what it names. -/
  | shifted {p : Address} (h : L.parseAddress entry = some p) (hother : ¬Names L entry p.address)
      (hnamed : ∃ e ∈ entries, Names L e p.address)
      (hreads : ∀ address, Names L entry address → ∃ e ∈ entries, Reads L e address)

/-- An address of `Bcc` is read from no other field, and stands in no text. -/
def ApartFrom (L : MailLib) (msg : OutgoingMessage) (address : Text) : Prop :=
  (∀ entry ∈ msg.from_ :: (msg.to_ ++ msg.cc), ∀ p, L.parseAddress entry = some p →
    p.address ≠ address ∧ ¬address <:+: p.name) ∧
  (L.parseAddress msg.from_ = none → ¬address <:+: msg.from_) ∧
  ∀ text ∈ [L.date, msg.subject, msg.inReplyTo, msg.references], ¬address <:+: text

section Shown

variable {L : MailLib} {N : Network} {config : SMTPConfig} {msg : OutgoingMessage} {sent : Sent}
  {address : Text} {entries : List Text}

/-- The first of a kind, and what stands before it. -/
theorem idxOf?_eq_some_append {c : Char} {raw : Text} {i : Nat} (h : raw.idxOf? c = some i) :
    ∃ pre post, raw = pre ++ c :: post ∧ c ∉ pre ∧ pre.length = i := by
  induction raw generalizing i with
  | nil => cases h
  | cons d raw ih =>
    rw [List.idxOf?_cons] at h
    split at h
    · rename_i heq
      cases h
      exact ⟨[], raw, by rw [eq_of_beq heq]; rfl, by simp, rfl⟩
    · rename_i hne
      obtain ⟨j, hj, rfl⟩ := Option.map_eq_some_iff.mp h
      obtain ⟨pre, post, rfl, hpre, rfl⟩ := ih hj
      refine ⟨d :: pre, post, rfl, ?_, rfl⟩
      rw [List.mem_cons, not_or]
      exact ⟨fun hc => hne (beq_iff_eq.mpr hc.symm), hpre⟩

theorem idxOf?_append_cons {c : Char} {pre : Text} (h : c ∉ pre) (post : Text) :
    (pre ++ c :: post).idxOf? c = some pre.length := by
  induction pre with
  | nil => simp [List.idxOf?_cons]
  | cons d pre ih =>
    rw [List.mem_cons, not_or] at h
    rw [List.cons_append, List.idxOf?_cons, if_neg (by simpa using Ne.symm h.1), ih h.2]
    rfl

theorem salvage_of_between {raw inner : Text} (h : Between raw inner) :
    salvage raw = trimSpace inner := by
  obtain ⟨pre, post, rfl, hstart, hstop⟩ := h
  have hinner : '>' ∉ pre ++ '<' :: inner := by
    rw [List.mem_append, List.mem_cons]
    rw [List.mem_append] at hstop
    rintro (hmem | hmem | hmem)
    · exact hstop (.inl hmem)
    · cases hmem
    · exact hstop (.inr hmem)
  have hsplit : pre ++ '<' :: (inner ++ '>' :: post) = (pre ++ '<' :: inner) ++ '>' :: post := by simp
  have hfirst : (pre ++ '<' :: (inner ++ '>' :: post)).idxOf? '>' = some (pre ++ '<' :: inner).length := by
    rw [hsplit, idxOf?_append_cons hinner]
  have htext : (pre ++ '<' :: inner).drop (pre.length + 1) = inner := by
    rw [← List.drop_drop, List.drop_left, List.drop_one, List.tail_cons]
  rw [salvage, idxOf?_append_cons hstart, hfirst]
  dsimp only
  rw [if_pos (by simp), hsplit, List.take_left, htext]

theorem salvage_of_not_between {raw : Text} (h : ∀ inner, ¬Between raw inner) :
    salvage raw = trimBy isCut raw := by
  rw [salvage]
  split
  · rename_i start stop hstart hstop
    rw [if_neg]
    intro hlt
    obtain ⟨pre, post, rfl, hpre, rfl⟩ := idxOf?_eq_some_append hstart
    obtain ⟨before, after, heq, hbefore, rfl⟩ := idxOf?_eq_some_append hstop
    -- the first `>` comes after the first `<`, so it stands in what follows this
    obtain ⟨mid, rfl, hpost⟩ | ⟨mid, rfl, hpost⟩ := List.append_eq_append_iff.mp heq
    · cases mid with
      | nil => simp at hlt
      | cons d inner =>
        rw [List.cons_append] at hpost
        obtain ⟨rfl, rfl⟩ := List.cons.inj hpost
        refine h inner ⟨pre, after, rfl, hpre, ?_⟩
        rw [List.mem_append, List.mem_cons, not_or, not_or] at hbefore
        rw [List.mem_append, not_or]
        exact ⟨hbefore.1, hbefore.2.2⟩
    · simp only [List.length_append] at hlt
      omega
  · rfl

theorem leaves_iff {raw address : Text} : Leaves raw address ↔ salvage raw = address := by
  constructor
  · rintro (h | h)
    · exact salvage_of_between h
    · exact salvage_of_not_between h
  · rintro rfl
    by_cases h : ∃ inner, Between raw inner
    · obtain ⟨inner, h⟩ := h
      rw [salvage_of_between h]
      exact .between h
    · rw [not_exists] at h
      rw [salvage_of_not_between h]
      exact .ends h

theorem extractBareEmail_unread {e : Text} (h : Unread L e) :
    extractBareEmail L e = salvage (trimSpace e) := by
  rw [extractBareEmail]
  split
  · rename_i p hp
    rw [if_neg (not_not_intro (h p hp))]
  · rfl

theorem extractBareEmail_trimmed {e : Text} {p : Address} (h : L.parseAddress (trimSpace e) = some p)
    (hne : p.address ≠ []) : extractBareEmail L e = p.address := by
  rw [extractBareEmail, h]
  exact if_pos hne

/-- An entry names what is taken from it. -/
theorem names_iff {e : Text} : Names L e address ↔ extractBareEmail L e = address ∧ address ≠ [] := by
  constructor
  · rintro (⟨h, hne⟩ | ⟨h, hleft, hne⟩)
    · exact ⟨extractBareEmail_trimmed h hne, hne⟩
    · exact ⟨(extractBareEmail_unread h).trans (leaves_iff.mp hleft), hne⟩
  · rintro ⟨rfl, hne⟩
    by_cases h : Unread L e
    · exact .left h (leaves_iff.mpr (extractBareEmail_unread h).symm) hne
    · simp only [Unread, not_forall] at h
      obtain ⟨p, hp, hpne⟩ := h
      rw [extractBareEmail_trimmed hp hpne]
      exact .trimmed hp hpne

theorem mem_cleanRecipients : address ∈ cleanRecipients L entries ↔ ∃ e ∈ entries, Names L e address := by
  simp only [names_iff]
  rw [cleanRecipients, List.mem_filter, List.mem_map, decide_eq_true_eq]
  constructor
  · rintro ⟨⟨e, he, heq⟩, hne⟩
    exact ⟨e, he, heq, hne⟩
  · rintro ⟨e, he, heq, hne⟩
    exact ⟨⟨e, he, heq⟩, hne⟩

theorem rcptTo_ok {client : Client} {rcpt accepted : Text} (h : rcptTo client rcpt = .ok accepted) :
    accepted = rcpt := by
  obtain ⟨_, -, h⟩ := bind_eq_ok h
  cases h
  rfl

/-- **What is sent**: the header of the message, to whom its fields name. -/
theorem send_ok (h : send L N config msg = .ok sent) : sent.mime.header = mailHeader L msg ∧
    sent.recipients = cleanRecipients L (msg.to_ ++ msg.cc ++ msg.bcc) := by
  obtain ⟨mime, hbuild, h⟩ := bind_eq_ok h
  obtain ⟨body, -, rfl⟩ := buildMIMEMessage_ok (mapError_eq_ok hbuild)
  dsimp only at h
  split at h
  · cases h
  split at h
  · cases h
  -- the server takes the message after seven commands
  obtain ⟨client, -, h⟩ := bind_eq_ok h
  obtain ⟨_, -, h⟩ := bind_eq_ok h
  obtain ⟨_, -, h⟩ := bind_eq_ok h
  obtain ⟨accepted, haccepted, h⟩ := bind_eq_ok h
  obtain ⟨_, -, h⟩ := bind_eq_ok h
  obtain ⟨_, -, h⟩ := bind_eq_ok h
  obtain ⟨_, -, h⟩ := bind_eq_ok h
  cases h
  have hid : accepted = (cleanRecipients L (msg.to_ ++ msg.cc ++ msg.bcc)).map id :=
    eq_map_of_mapM (fun _ _ => rcptTo_ok) haccepted
  exact ⟨rfl, hid.trans (List.map_id _)⟩

/-- **Who gets the message**: whom an entry names. -/
theorem receives_iff (h : send L N config msg = .ok sent)
    (hsub : ∀ e ∈ entries, e ∈ msg.to_ ++ msg.cc ++ msg.bcc) :
    Receives L sent entries address ↔ ∃ e ∈ entries, Names L e address := by
  rw [Receives, (send_ok h).2, mem_cleanRecipients]
  constructor
  · rintro ⟨⟨_, -, hname⟩, e, he, heq⟩
    exact ⟨e, he, names_iff.mpr ⟨heq, (names_iff.mp hname).2⟩⟩
  · rintro ⟨e, he, hname⟩
    exact ⟨⟨e, hsub e he, hname⟩, e, he, (names_iff.mp hname).1⟩

theorem mem_addressField {name : String} {field : Text × Field} :
    field ∈ addressField L name entries ↔ entries.filterMap L.parseAddress ≠ [] ∧
      field = (name.toList, .addresses (entries.filterMap L.parseAddress)) := by
  rw [addressField]
  cases entries.filterMap L.parseAddress with
  | nil => simp
  | cons p list => simp

theorem mem_textField {name : String} {value : Text} {field : Text × Field} :
    field ∈ textField name value ↔ value ≠ [] ∧ field = (name.toList, .text value) := by
  rw [textField]
  split <;> simp [*]

/-- The fields of the header. -/
theorem mem_mailHeader {field : Text × Field} : field ∈ mailHeader L msg ↔
    field = ("Date".toList, .text L.date) ∨ field = ("Subject".toList, .text msg.subject) ∨
    field = ("From".toList, fromField L msg.from_) ∨ field ∈ addressField L "To" msg.to_ ∨
    field ∈ addressField L "Cc" msg.cc ∨ field ∈ textField "In-Reply-To" msg.inReplyTo ∨
    field ∈ textField "References" msg.references := by
  rw [mailHeader]
  simp only [List.mem_append, List.mem_cons, List.not_mem_nil, or_false, or_assoc]

/-- An address of a field of recipients has been read. -/
theorem reads_of_field {name : Text} {list : List Address} {p : Address} (hfrom : name ≠ "From".toList)
    (hmem : (name, Field.addresses list) ∈ mailHeader L msg) (hp : p ∈ list) :
    ∃ e ∈ msg.to_ ++ msg.cc, L.parseAddress e = some p := by
  rcases mem_mailHeader.mp hmem with h | h | h | h | h | h | h
  · cases h
  · cases h
  · exact absurd (Prod.mk.inj h).1 hfrom
  · obtain ⟨-, heq⟩ := mem_addressField.mp h
    obtain rfl := Field.addresses.inj (Prod.mk.inj heq).2
    obtain ⟨e, he, hread⟩ := List.mem_filterMap.mp hp
    exact ⟨e, List.mem_append_left _ he, hread⟩
  · obtain ⟨-, heq⟩ := mem_addressField.mp h
    obtain rfl := Field.addresses.inj (Prod.mk.inj heq).2
    obtain ⟨e, he, hread⟩ := List.mem_filterMap.mp hp
    exact ⟨e, List.mem_append_right _ he, hread⟩
  · cases (mem_textField.mp h).2
  · cases (mem_textField.mp h).2

/-- An entry that is read is in a field. -/
theorem field_of_reads {e : Text} {p : Address} (he : e ∈ msg.to_ ++ msg.cc)
    (hp : L.parseAddress e = some p) : ∃ name ∈ ["To".toList, "Cc".toList], ∃ list,
      (name, Field.addresses list) ∈ mailHeader L msg ∧ p ∈ list := by
  rcases List.mem_append.mp he with he | he
  · have hmem : p ∈ msg.to_.filterMap L.parseAddress := List.mem_filterMap.mpr ⟨e, he, hp⟩
    refine ⟨_, List.mem_cons_self, _, ?_, hmem⟩
    exact mem_mailHeader.mpr (.inr (.inr (.inr (.inl
      (mem_addressField.mpr ⟨List.ne_nil_of_mem hmem, rfl⟩)))))
  · have hmem : p ∈ msg.cc.filterMap L.parseAddress := List.mem_filterMap.mpr ⟨e, he, hp⟩
    refine ⟨_, List.mem_cons_of_mem _ List.mem_cons_self, _, ?_, hmem⟩
    exact mem_mailHeader.mpr (.inr (.inr (.inr (.inr (.inl
      (mem_addressField.mpr ⟨List.ne_nil_of_mem hmem, rfl⟩))))))

/-- **Who is shown**: the addresses that are read. -/
theorem shown_iff_reads : Shown (mailHeader L msg) address ↔
    ∃ e ∈ msg.to_ ++ msg.cc, Reads L e address := by
  constructor
  · rintro ⟨name, hname, list, hmem, p, hp, heq⟩
    have hfrom : name ≠ "From".toList := by
      rintro rfl
      exact absurd hname (by decide)
    obtain ⟨e, he, hread⟩ := reads_of_field hfrom hmem hp
    exact ⟨e, he, p, hread, heq⟩
  · rintro ⟨e, he, p, hp, heq⟩
    obtain ⟨name, hname, list, hmem, hlist⟩ := field_of_reads he hp
    exact ⟨name, hname, list, hmem, p, hlist, heq⟩

/-- A fair entry that is read: the address is named. -/
theorem Fair.named {e : Text} {p : Address} (h : Fair L entries e) (he : e ∈ entries)
    (hp : L.parseAddress e = some p) : ∃ e ∈ entries, Names L e p.address := by
  cases h with
  | read hread htrim hne hsame =>
    obtain rfl := Option.some.inj (hread.symm.trans hp)
    exact ⟨e, he, hsame ▸ .trimmed htrim hne⟩
  | left hread htrim hleft hne =>
    obtain rfl := Option.some.inj (hread.symm.trans hp)
    exact ⟨e, he, .left htrim hleft hne⟩
  | void hnone => exact absurd (hp.symm.trans hnone) (Option.some_ne_none p)
  | missed hnone => exact absurd (hp.symm.trans hnone) (Option.some_ne_none p)
  | shifted hread _ hnamed =>
    obtain rfl := Option.some.inj (hread.symm.trans hp)
    exact hnamed

/-- A fair entry that names an address: it is read. -/
theorem Fair.reads {e : Text} (h : Fair L entries e) (he : e ∈ entries) (hname : Names L e address) :
    ∃ e ∈ entries, Reads L e address := by
  obtain ⟨heq, hne⟩ := names_iff.mp hname
  cases h with
  | @read p q hread htrim hqne hsame =>
    rw [extractBareEmail_trimmed htrim hqne] at heq
    exact ⟨e, he, p, hread, hsame.symm.trans heq⟩
  | @left p hread htrim hleft =>
    rw [extractBareEmail_unread htrim, leaves_iff.mp hleft] at heq
    exact ⟨e, he, p, hread, heq⟩
  | void _ htrim hleft =>
    rw [extractBareEmail_unread htrim, leaves_iff.mp hleft] at heq
    exact absurd heq.symm hne
  | missed _ hnames hreads =>
    obtain rfl := (names_iff.mp hnames).1.symm.trans heq
    exact hreads
  | shifted _ _ _ hreads => exact hreads address hname

/-- The entries are fair exactly if those are shown who get the message. -/
theorem fair_iff : (∀ e ∈ entries, Fair L entries e) ↔
    ∀ address, (∃ e ∈ entries, Reads L e address) ↔ ∃ e ∈ entries, Names L e address := by
  constructor
  · intro h address
    constructor
    · rintro ⟨e, he, p, hp, rfl⟩
      exact (h e he).named he hp
    · rintro ⟨e, he, hname⟩
      exact (h e he).reads he hname
  · intro h e he
    have hreads : ∀ address, Names L e address → ∃ e ∈ entries, Reads L e address :=
      fun address hname => (h address).mpr ⟨e, he, hname⟩
    cases hparse : L.parseAddress e with
    | none =>
      by_cases hname : ∃ address, Names L e address
      · obtain ⟨address, hname⟩ := hname
        exact .missed hparse hname (hreads address hname)
      · -- it names nothing: it is not read without the blanks either, and leaves nothing
        have hunread : Unread L e := fun p hp => by
          by_contra hne
          exact hname ⟨_, .trimmed hp hne⟩
        refine .void hparse hunread (leaves_iff.mpr ?_)
        by_contra hne
        exact hname ⟨_, .left hunread (leaves_iff.mpr rfl) hne⟩
    | some p =>
      by_cases hname : Names L e p.address
      · generalize haddress : p.address = address at hname
        cases hname with
        | trimmed htrim hne => exact .read hparse htrim hne haddress.symm
        | left htrim hleft hne =>
          subst haddress
          exact .left hparse htrim hleft hne
      · exact .shifted hparse hname ((h p.address).mp ⟨e, he, p, hparse, rfl⟩) hreads

theorem apartFrom_of_hidden (hne : address ≠ [])
    (h : ∀ field ∈ mailHeader L msg, ¬Occurs address field.2) : ApartFrom L msg address := by
  have hfrom := h ("From".toList, fromField L msg.from_) (mem_mailHeader.mpr (.inr (.inr (.inl rfl))))
  have hvalue : ∀ name value, (∀ field ∈ textField name value, field ∈ mailHeader L msg) →
      ¬address <:+: value := by
    intro name value hmem hin
    by_cases hempty : value = []
    · rw [hempty, List.infix_nil] at hin
      exact hne hin
    · exact h _ (hmem _ (mem_textField.mpr ⟨hempty, rfl⟩)) hin
  refine ⟨fun entry hentry p hp => ?_, fun hnone => ?_, fun text htext => ?_⟩
  · rw [← not_or]
    intro hoccurs
    rcases List.mem_cons.mp hentry with rfl | hentry
    · rw [fromField, hp] at hfrom
      exact hfrom ⟨p, List.mem_singleton_self p, hoccurs⟩
    · obtain ⟨name, -, list, hmem, hlist⟩ := field_of_reads hentry hp
      exact h _ hmem ⟨p, hlist, hoccurs⟩
  · rw [fromField, hnone] at hfrom
    exact hfrom
  · simp only [List.mem_cons, List.not_mem_nil, or_false] at htext
    rcases htext with rfl | rfl | rfl | rfl
    · exact h _ (mem_mailHeader.mpr (.inl rfl))
    · exact h _ (mem_mailHeader.mpr (.inr (.inl rfl)))
    · exact hvalue "In-Reply-To" _ fun field hfield =>
        mem_mailHeader.mpr (.inr (.inr (.inr (.inr (.inr (.inl hfield))))))
    · exact hvalue "References" _ fun field hfield =>
        mem_mailHeader.mpr (.inr (.inr (.inr (.inr (.inr (.inr hfield))))))

theorem hidden_of_apartFrom (h : ApartFrom L msg address) :
    ∀ field ∈ mailHeader L msg, ¬Occurs address field.2 := by
  obtain ⟨hreads, hraw, htexts⟩ := h
  have hlist : ∀ l : List Text, (∀ e ∈ l, e ∈ msg.to_ ++ msg.cc) →
      ¬Occurs address (.addresses (l.filterMap L.parseAddress)) := by
    rintro l hl ⟨p, hp, hoccurs⟩
    obtain ⟨e, he, hread⟩ := List.mem_filterMap.mp hp
    exact not_or.mpr (hreads e (List.mem_cons_of_mem _ (hl e he)) p hread) hoccurs
  intro field hfield
  rcases mem_mailHeader.mp hfield with rfl | rfl | rfl | hto | hcc | hreply | hreferences
  · exact htexts _ (by simp)
  · exact htexts _ (by simp)
  · rw [fromField]
    cases hfrom : L.parseAddress msg.from_ with
    | some p =>
      rintro ⟨q, hq, hoccurs⟩
      rw [List.mem_singleton.mp hq] at hoccurs
      exact not_or.mpr (hreads _ List.mem_cons_self p hfrom) hoccurs
    | none => exact hraw hfrom
  · rw [(mem_addressField.mp hto).2]
    exact hlist _ fun e he => List.mem_append_left _ he
  · rw [(mem_addressField.mp hcc).2]
    exact hlist _ fun e he => List.mem_append_right _ he
  · rw [(mem_textField.mp hreply).2]
    exact htexts _ (by simp)
  · rw [(mem_textField.mp hreferences).2]
    exact htexts _ (by simp)

/-- **Those are shown who get the message** if and only if the entries are fair and the addresses that
`Bcc` names stand apart. -/
theorem shownIffSent_iff (h : send L N config msg = .ok sent) : ShownIffSent L msg sent ↔
    (∀ e ∈ msg.to_ ++ msg.cc, Fair L (msg.to_ ++ msg.cc) e) ∧
      ∀ e ∈ msg.bcc, ∀ address, Names L e address → ApartFrom L msg address := by
  have hheader := (send_ok h).1
  have hvisible : ∀ address, Receives L sent (msg.to_ ++ msg.cc) address ↔
      ∃ e ∈ msg.to_ ++ msg.cc, Names L e address :=
    fun address => receives_iff h fun e he => List.mem_append_left _ he
  have hblind : ∀ address, Receives L sent msg.bcc address ↔ ∃ e ∈ msg.bcc, Names L e address :=
    fun address => receives_iff h fun e he => List.mem_append_right _ he
  rw [fair_iff]
  constructor
  · rintro ⟨hshown, hhidden, -⟩
    rw [hheader] at hshown hhidden
    refine ⟨fun address => ?_, fun e he address hname => ?_⟩
    · rw [← shown_iff_reads, hshown, hvisible]
    · exact apartFrom_of_hidden (names_iff.mp hname).2
        (hhidden address ((hblind address).mpr ⟨e, he, hname⟩))
  · rintro ⟨hfair, hapart⟩
    refine ⟨fun address => ?_, fun address hmem => ?_, fun address hmem => ?_⟩
    · rw [hheader, shown_iff_reads, hfair, hvisible]
    · obtain ⟨e, he, hname⟩ := (hblind address).mp hmem
      rw [hheader]
      exact hidden_of_apartFrom (hapart e he address hname)
    · rw [receives_iff h fun e he => he, ← mem_cleanRecipients, ← (send_ok h).2]
      exact hmem

/-- Libraries without a failure, which parse the addresses of four people. -/
def MailLib.sample : MailLib where
  parseAddress raw :=
    if raw = "me@x.org".toList ∨ raw = "you@x.org".toList ∨ raw = "boss@x.org".toList then
      some ⟨[], raw⟩
    else if raw = "Ann <ann@x.org>".toList then some ⟨"Ann".toList, "ann@x.org".toList⟩
    else none
  date := "Sat, 01 Aug 2026 00:00:00 +0000".toList
  qEncode := id
  writerErr _ := none
  inlineErr := none
  partErr _ := none
  closeErr _ := none

/-- A network whose server takes everything. -/
def Network.sample : Network where
  tlsDialErr _ _ := none
  newClient _ := .ok ⟨none, fun _ => none, fun _ => none, fun _ => none, fun _ => none, none,
    fun _ => none, none⟩
  dial _ := .error "no network".toList
  startTLS _ := .error "no network".toList

def SMTPConfig.sample : SMTPConfig := ⟨"x.org".toList, 465, true, false, [], []⟩

/-- A message with a copy, an entry of blanks, and a copy that nobody is to see. -/
def circular : OutgoingMessage where
  from_ := "me@x.org".toList
  to_ := ["you@x.org".toList]
  cc := ["Ann <ann@x.org>".toList, " ".toList]
  bcc := ["boss@x.org".toList]

/-- What the server takes of it. -/
def circularSent : Sent where
  fromBare := "me@x.org".toList
  recipients := ["you@x.org".toList, "ann@x.org".toList, "boss@x.org".toList]
  mime := ⟨mailHeader .sample circular, [.singleInline (plainPart [])]⟩

theorem circular_fair : ∀ e ∈ circular.to_ ++ circular.cc,
    Fair .sample (circular.to_ ++ circular.cc) e := by
  have hyou : MailLib.sample.parseAddress "you@x.org".toList = some ⟨[], "you@x.org".toList⟩ := by decide
  have hyou' : trimSpace "you@x.org".toList = "you@x.org".toList := by decide
  have hann : MailLib.sample.parseAddress "Ann <ann@x.org>".toList =
      some ⟨"Ann".toList, "ann@x.org".toList⟩ := by decide
  have hann' : trimSpace "Ann <ann@x.org>".toList = "Ann <ann@x.org>".toList := by decide
  have hblank : Unread .sample " ".toList := fun p hp => by
    have hnone : MailLib.sample.parseAddress (trimSpace " ".toList) = none := by decide
    exact absurd (hp.symm.trans hnone) (Option.some_ne_none p)
  intro e he
  rcases List.mem_append.mp he with hto | hcc
  · obtain rfl := List.mem_singleton.mp hto
    exact .read hyou (hyou'.symm ▸ hyou) (by decide) rfl
  · rcases List.mem_pair.mp hcc with rfl | rfl
    · exact .read hann (hann'.symm ▸ hann) (by decide) rfl
    · exact .void (by decide) hblank (leaves_iff.mpr (by decide))

theorem circular_apart : ∀ e ∈ circular.bcc, ∀ address, Names .sample e address →
    ApartFrom .sample circular address := by
  intro e he address hname
  obtain rfl := List.mem_singleton.mp he
  obtain rfl := (names_iff.mp hname).1
  have hread : ∀ entry ∈ circular.from_ :: (circular.to_ ++ circular.cc),
      ∀ p ∈ MailLib.sample.parseAddress entry, p.address ≠ extractBareEmail .sample "boss@x.org".toList ∧
        ¬extractBareEmail .sample "boss@x.org".toList <:+: p.name := by decide
  exact ⟨hread, by decide, by decide⟩

theorem shownIffSent_sample : send .sample .sample .sample circular = .ok circularSent ∧
    ShownIffSent .sample circular circularSent :=
  ⟨rfl, (@shownIffSent_iff .sample .sample .sample circular circularSent rfl).mpr
    ⟨circular_fair, circular_apart⟩⟩

/-- A message to one recipient. -/
def letterTo (recipient : String) : OutgoingMessage :=
  { from_ := "me@x.org".toList, to_ := [recipient.toList] }

/-- Someone whose name has a comma gets the message, and is not shown. -/
theorem comma_not_shown : ∃ sent,
    send .sample .sample .sample (letterTo "Doe, Jane <jane@x.org>") = .ok sent ∧
      ¬ShownIffSent .sample (letterTo "Doe, Jane <jane@x.org>") sent := by
  refine ⟨_, rfl, fun h => ?_⟩
  have hsent : "jane@x.org".toList = extractBareEmail .sample "Doe, Jane <jane@x.org>".toList := by decide
  have hshown := (h.shown_iff "jane@x.org".toList).mpr
    ⟨List.mem_singleton.mpr hsent, _, List.mem_cons_self, hsent.symm⟩
  obtain ⟨e, he, p, hp, -⟩ := shown_iff_reads.mp hshown
  obtain rfl := List.mem_singleton.mp he
  have hnone : MailLib.sample.parseAddress "Doe, Jane <jane@x.org>".toList = none := by decide
  exact Option.some_ne_none p (hp.symm.trans hnone)

end Shown

/-! ## Parts of seven bits -/

/-- What is labelled `7bit` has no byte above. -/
def SevenBit (m : Mime) : Prop :=
  ∀ p ∈ m.parts, p.header.transferEncoding = some "7bit".toList → ∀ b ∈ p.body, b < 0x80

section SevenBit

variable {L : MailLib} {msg : OutgoingMessage} {m : Mime}

theorem utf8_ascii_iff (s : Text) : (∀ b ∈ utf8 s, b < 0x80) ↔ ∀ c ∈ s, c.toNat < 0x80 := by
  constructor
  · intro h c hc
    obtain ⟨b, hb⟩ := List.exists_mem_of_ne_nil _ (String.utf8EncodeChar_ne_nil (c := c))
    have hlow : b.toNat < 0x80 := h b (List.mem_flatMap.mpr ⟨c, hc, hb⟩)
    have hbc := mem_utf8EncodeChar hb
    omega
  · intro h b hb
    obtain ⟨c, hc, hb⟩ := List.mem_flatMap.mp hb
    have hlow := h c hc
    have hbc := mem_utf8EncodeChar hb
    have hb : b.toNat < 0x80 := by omega
    exact hb

/-- Only the line ends are made anew. -/
theorem mem_normalizedBody {c : Char} (hc : 0x80 ≤ c.toNat) {body : Text} :
    c ∈ normalizedBody body ↔ c ∈ body := by
  have hfeed : c ≠ '\n' := fun h => by simp [h] at hc
  have hreturn : c ≠ '\r' := fun h => by simp [h] at hc
  constructor
  · intro h
    have hinner := (mem_of_mem_replaceAll h).resolve_right (by simp [hfeed, hreturn])
    exact (mem_of_mem_replaceAll hinner).resolve_right (by simp [hfeed])
  · intro h
    apply mem_replaceAll_of_mem (List.cons_ne_nil _ _) (by simp [hfeed])
    exact mem_replaceAll_of_mem (List.cons_ne_nil _ _) (by simp [hfeed, hreturn]) h

theorem normalizedBody_ascii_iff (body : Text) :
    (∀ c ∈ normalizedBody body, c.toNat < 0x80) ↔ ∀ c ∈ body, c.toNat < 0x80 := by
  constructor
  · intro h c hc
    by_contra hhigh
    exact hhigh (h c ((mem_normalizedBody (by omega)).mpr hc))
  · intro h c hc
    by_contra hhigh
    exact hhigh (h c ((mem_normalizedBody (by omega)).mp hc))

/-- **What is labelled `7bit`** is, unless a text that is sent as it is has a letter that is not
of ASCII. -/
theorem sevenBit_iff (h : buildMIMEMessage L msg = .ok m) :
    SevenBit m ↔ (isPgp msg = true ∨ msg.htmlBody = [] → ∀ c ∈ msg.textBody, c.toNat < 0x80) := by
  obtain ⟨body, hbody, rfl⟩ := buildMIMEMessage_ok h
  have hattachments : ∀ p ∈ (msg.attachments.map fun att => Piece.attachment (attachmentPart L att)).flatMap
      Piece.parts, p.header.transferEncoding = none := by
    intro p hp
    simp only [List.mem_flatMap, List.mem_map] at hp
    obtain ⟨_, ⟨att, -, rfl⟩, hp⟩ := hp
    rw [Piece.parts, List.mem_singleton] at hp
    rw [hp]
    rfl
  rcases bodyPiece_ok hbody with ⟨hplain, rfl⟩ | ⟨hencoded, hnone⟩
  · rw [imp_iff_right hplain, ← normalizedBody_ascii_iff, ← utf8_ascii_iff]
    constructor
    · exact fun hseven => hseven _ List.mem_cons_self rfl
    · intro hbytes p hp hlabel
      rcases List.mem_cons.mp hp with rfl | hp
      · exact hbytes
      · rw [hattachments p hp] at hlabel
        cases hlabel
  · refine iff_of_true ?_ fun hplain => absurd hplain hencoded
    intro p hp hlabel
    rw [Mime.parts, List.flatMap_cons, List.mem_append] at hp
    rw [hp.elim (hnone p) (hattachments p)] at hlabel
    cases hlabel

/-- Libraries without a failure, which parse nothing. -/
def quietLib : MailLib := ⟨fun _ => none, [], id, fun _ => none, none, fun _ => none, fun _ => none⟩

/-- A draft. -/
def coffeeDraft : OutgoingMessage := { textBody := "café".toList }

/-- A draft in ASCII. -/
def teaDraft : OutgoingMessage := { textBody := "tea".toList }

theorem build_quiet (body : Text) : buildMIMEMessage quietLib { textBody := body } =
    .ok ⟨mailHeader quietLib { textBody := body }, [.singleInline (plainPart body)]⟩ := by
  simp [buildMIMEMessage, bodyPiece, check, quietLib, bind, Except.bind, pure, Except.pure]

theorem sevenBit_tea : SevenBit ⟨mailHeader quietLib teaDraft, [.singleInline (plainPart "tea".toList)]⟩ :=
  (sevenBit_iff (build_quiet "tea".toList)).mpr fun _ => by simp

theorem coffee_not_sevenBit : ∃ m, buildMIMEMessage quietLib coffeeDraft = .ok m ∧ ¬SevenBit m := by
  refine ⟨_, build_quiet _, fun h => ?_⟩
  have hbytes := h _ List.mem_cons_self rfl
  exact absurd (hbytes 0xC3 (by decide +kernel)) (by decide)

end SevenBit

end E2Mail.Smtp
