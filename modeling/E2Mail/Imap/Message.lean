import E2Mail.Imap.Search
import E2Mail.Lib.Decimal

/-!
# Messages

How a message is put together from its parts: the bodies, the attachments and what is
taken out of them for an encrypted message, and how one attachment is downloaded.

The headers are what the mail library's accessors return of them, and the parts are in
the order in which its reader gives them, up to the end or to its first error.

* `parseMessage` — `ParseRFC822Message`;
* `downloadAttachment` — what `DownloadAttachment` answers with.
-/

namespace E2Mail.Imap

open Lib

/-! ## Headers -/

/-- What the messages take from the libraries. -/
structure MailLib where
  /-- `strings.ToLower` -/
  toLower : Bytes → Bytes
  /-- `strings.TrimSpace` -/
  trimSpace : Bytes → Bytes
  /-- `strings.EqualFold` -/
  equalFold : Bytes → Bytes → Bool
  /-- `utf8.Valid` -/
  utf8Valid : Bytes → Bool
  /-- the reader of a charset, and its error -/
  convert : Bytes → Bytes → Option Bytes
  /-- `WordDecoder.DecodeHeader` -/
  decodeWords : Bytes → Option Bytes

variable (L : MailLib)

/-- `DecodeHeader`. -/
def decodeHeader (input : Bytes) : Bytes :=
  if input = [] then [] else (L.decodeWords input).getD input

/-- `ToUTF8`. -/
def toUTF8 (data charset : Bytes) : Bytes :=
  if data = [] then []
  else if L.utf8Valid data then data
  else (L.convert charset data).getD data

/-- An address with its name. -/
structure Address where
  /-- `Name` -/
  name : Bytes
  /-- `Address` -/
  address : Bytes
  deriving DecidableEq, Repr

/-- `ParseAddressList`. -/
def parseAddressList (rawList : List Address) : List Address :=
  rawList.map fun addr => ⟨decodeHeader L addr.name, addr.address⟩

/-- The header of a message. -/
structure MailHeader where
  /-- `Subject()` -/
  subject : Option Bytes
  /-- `AddressList` of From, -/
  fromList : Option (List Address)
  /-- of To, -/
  toList : Option (List Address)
  /-- of Cc, -/
  ccList : Option (List Address)
  /-- of Bcc -/
  bccList : Option (List Address)
  /-- and of Reply-To -/
  replyToList : Option (List Address)
  /-- the type of `ContentType()` -/
  contentType : Bytes
  /-- and its `protocol` -/
  protocol : Bytes

/-- The header of a part. -/
structure PartHeader where
  /-- the type of `ContentType()`, -/
  contentType : Bytes
  /-- its `charset` -/
  charset : Bytes
  /-- and its `name` -/
  name : Bytes
  /-- the `filename` of `ContentDisposition()` -/
  dispositionFilename : Bytes
  /-- `Filename()` -/
  filename : Bytes
  /-- `Content-Disposition` -/
  contentDisposition : Bytes
  /-- `Content-Location` -/
  contentLocation : Bytes
  /-- `Content-Id` -/
  contentId : Bytes

/-- A part with its body, as the reader tells them apart by the type of the header. -/
inductive Part where
  /-- `InlineHeader` -/
  | inline (h : PartHeader) (body : Bytes)
  /-- `AttachmentHeader` -/
  | attachment (h : PartHeader) (body : Bytes)

/-! ## Parts -/

/-- `AttachmentInfo`. -/
structure AttachmentInfo where
  /-- `ID` -/
  id : Bytes
  /-- `Filename` -/
  filename : Bytes
  /-- `ContentType` -/
  contentType : Bytes
  /-- `Size` -/
  size : Nat
  /-- `ContentID` -/
  contentID : Bytes
  /-- `IsInline` -/
  isInline : Bool
  /-- `Data` -/
  data : Bytes
  deriving DecidableEq, Repr

/-- The fields of `ParsedMessage` that come from the header and the parts. -/
structure ParsedMessage where
  subject : Bytes
  fromList : List Address
  toList : List Address
  ccList : List Address
  bccList : List Address
  replyToList : List Address
  textBody : Bytes
  htmlBody : Bytes
  attachments : List AttachmentInfo
  deriving DecidableEq, Repr

/-- `populateHeaders`: what does not parse stays empty. -/
def populateHeaders (h : MailHeader) : ParsedMessage where
  subject := (h.subject.map (decodeHeader L)).getD []
  fromList := (h.fromList.map (parseAddressList L)).getD []
  toList := (h.toList.map (parseAddressList L)).getD []
  ccList := (h.ccList.map (parseAddressList L)).getD []
  bccList := (h.bccList.map (parseAddressList L)).getD []
  replyToList := (h.replyToList.map (parseAddressList L)).getD []
  textBody := []
  htmlBody := []
  attachments := []

/-- `strings.Trim(s, "<>")`. -/
def trimAngles (s : Bytes) : Bytes :=
  let angle := fun b : UInt8 => b == 60 || b == 62
  ((s.dropWhile angle).reverse.dropWhile angle).reverse

/-- An image that Word puts in for the layout. -/
def isPlaceholder (h : PartHeader) : Bool :=
  containsBytes h.dispositionFilename (utf8 "Template_Bilingual") ||
    containsBytes (L.toLower h.contentLocation) (utf8 "template_bilingual")

/-- The first of some texts that is not empty, or the last. -/
def firstNonempty : List Bytes → Bytes → Bytes
  | [], last => last
  | s :: rest, last => if s = [] then firstNonempty rest last else s

/-- `handleInlinePart`: the first text is the body, and everything else an attachment. -/
def handleInlinePart (msg : ParsedMessage) (h : PartHeader) (body : Bytes) : ParsedMessage :=
  let utf8Body := toUTF8 L body h.charset
  if (utf8 "text/plain").isPrefixOf h.contentType && msg.textBody == [] then
    { msg with textBody := utf8Body }
  else if (utf8 "text/html").isPrefixOf h.contentType && msg.htmlBody == [] then
    { msg with htmlBody := utf8Body }
  else if isPlaceholder L h then msg
  else
    let number := decimal (msg.attachments.length + 1)
    let filename := firstNonempty [h.dispositionFilename, h.name] (utf8 "inline_" ++ number)
    { msg with attachments := msg.attachments ++ [{
        id := number
        filename := decodeHeader L filename
        contentType := h.contentType
        size := body.length
        contentID := trimAngles h.contentId
        isInline := true
        data := body }] }

/-- `handleAttachmentPart`. -/
def handleAttachmentPart (msg : ParsedMessage) (h : PartHeader) (body : Bytes) (idx : Nat) :
    ParsedMessage :=
  let filename := firstNonempty [h.filename] (utf8 "attachment_" ++ decimal idx)
  let contentID := trimAngles h.contentId
  { msg with attachments := msg.attachments ++ [{
      id := decimal idx
      filename := decodeHeader L filename
      contentType := h.contentType
      size := body.length
      contentID := contentID
      isInline := L.equalFold h.contentDisposition (utf8 "inline") || contentID != []
      data := body }] }

/-- A turn of `collectParts`, with `attachmentIndex`. -/
def collectPart (st : ParsedMessage × Nat) : Part → ParsedMessage × Nat
  | .inline h body => (handleInlinePart L st.1 h body, st.2)
  | .attachment h body => (handleAttachmentPart L st.1 h body (st.2 + 1), st.2 + 1)

/-- `collectParts`. -/
def collectParts (msg : ParsedMessage) (parts : List Part) : ParsedMessage :=
  (parts.foldl (collectPart L) (msg, 0)).1

/-! ## Encrypted messages -/

/-- The line that an encrypted text begins with. -/
def pgpMarker : Bytes := utf8 "-----BEGIN PGP MESSAGE-----"

/-- The attachment is an encrypted text. -/
def isPgpText (a : AttachmentInfo) : Bool := containsBytes a.data pgpMarker

/-- The attachment is the control part of an encrypted message. -/
def isPgpControl (a : AttachmentInfo) : Bool :=
  L.equalFold a.contentType (utf8 "application/pgp-encrypted") &&
    L.trimSpace a.data == utf8 "Version: 1"

/-- `handlePgpMime`: the first encrypted text becomes the body, unless there is one, and
control parts are dropped. -/
def handlePgpMime (msg : ParsedMessage) (isPgpMime : Bool) : ParsedMessage :=
  if !isPgpMime && (msg.textBody != [] || msg.htmlBody != []) then msg
  else
    let textBody :=
      match msg.attachments.find? isPgpText with
      | some a => if msg.textBody = [] then a.data else msg.textBody
      | none => msg.textBody
    { msg with
      textBody := textBody
      attachments := (msg.attachments.eraseP isPgpText).filter fun a => !isPgpControl L a }

/-- `isPgpMime`. -/
def MailHeader.isPgpMime (h : MailHeader) : Bool :=
  (utf8 "multipart/encrypted").isPrefixOf h.contentType &&
    L.equalFold h.protocol (utf8 "application/pgp-encrypted")

/-- `ParseRFC822Message`. -/
def parseMessage (h : MailHeader) (parts : List Part) : ParsedMessage :=
  handlePgpMime L (collectParts L (populateHeaders L h) parts) (h.isPgpMime L)

/-! ## Downloads -/

/-- What `DownloadAttachment` answers with. -/
structure Download where
  /-- `Content-Type` -/
  contentType : Bytes
  /-- `Content-Disposition`: inline, or as an attachment, -/
  isInline : Bool
  /-- under this name -/
  filename : Bytes
  /-- the body -/
  data : Bytes
  deriving DecidableEq, Repr

/-- The answer with an attachment. -/
def AttachmentInfo.download (a : AttachmentInfo) : Download where
  contentType := if a.contentType = [] then utf8 "application/octet-stream" else a.contentType
  isInline := a.isInline
  filename := a.filename
  data := a.data

/-- `DownloadAttachment` on the attachments of a message. -/
def downloadAttachment (attachments : List AttachmentInfo) (attID : Bytes) : Option Download :=
  (attachments.find? fun a => a.id == attID || a.contentID == attID).map AttachmentInfo.download

end E2Mail.Imap
