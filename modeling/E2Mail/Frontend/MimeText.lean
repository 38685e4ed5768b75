import Mathlib.Data.List.DropRight
import E2Mail.Lib.Regex
import E2Mail.Frontend.MailStyles

/-!
# The text of a decrypted MIME message

What a PGP message decrypts to may be a MIME message. The client takes the text out of it.

* `atob`, `decodeUtf8` — the decoders of the browser.
* `processParts` — the parts of a message, those inside other parts too.
* `extractTextFromMime` — the HTML or the plain text of a message, its images put in.
* `processParts_enough` — the depth of the recursion is bounded by the text.
-/

namespace E2Mail.Frontend.Pgp

open Lib Lib.Regex

/-- What the language knows of the letters outside ASCII. -/
structure Unicode where
  toLowerCase : JSText → JSText
  /-- what `/i` makes of a code unit -/
  canonicalize : UInt16 → UInt16

/-! ## Strings -/

/-- `.trim()`. -/
def trim (s : JSText) : JSText := (s.dropWhile isWhite).rdropWhile isWhite

/-- `.replace(/\s/g, '')`. -/
def removeWhite (s : JSText) : JSText := s.filter fun c => !isWhite c

/-- `.split(sep)`, for a separator that is not empty; `skip` units are part of one. -/
def splitFrom (sep : JSText) : Nat → JSText → List JSText
  | _, [] => [[]]
  | skip + 1, _ :: s => splitFrom sep skip s
  | 0, c :: s =>
    if sep.isPrefixOf (c :: s) then [] :: splitFrom sep (sep.length - 1) s
    else (splitFrom sep 0 s).modifyHead (c :: ·)

/-- `.indexOf(text)`. -/
def indexOfText (text : JSText) : JSText → Option Nat
  | [] => if text = [] then some 0 else none
  | c :: s => if text.isPrefixOf (c :: s) then some 0 else (indexOfText text s).map (· + 1)

theorem indexOfText_isSome {text s : JSText} : (indexOfText text s).isSome ↔ text <:+: s := by
  induction s with
  | nil =>
    rw [indexOfText]
    split
    · simp_all
    · simp_all
  | cons c s ih =>
    rw [indexOfText, List.infix_cons_iff, ← ih, ← List.isPrefixOf_iff_prefix]
    split
    · simp_all
    · simp_all

/-- `.indexOf(text, i)`. -/
def indexFrom (text : JSText) (i : Nat) (s : JSText) : Option Nat :=
  (indexOfText text (s.drop i)).map (· + i)

/-- The replacement text of a pattern without groups. -/
def substitute (m : Match UInt16) : JSText → JSText
  | [] => []
  | [c] => [c]
  | c :: d :: s =>
    if c = unit '$' then
      if d = unit '$' then unit '$' :: substitute m s
      else if d = unit '&' then m.text ++ substitute m s
      else if d = unit '`' then m.before.reverse ++ substitute m s
      else if d = unit '\'' then m.rest ++ substitute m s
      else c :: substitute m (d :: s)
    else c :: substitute m (d :: s)

/-! ## Regular expressions -/

abbrev RegExp := Regex UInt16

/-- A sequence. -/
def sequence (rs : List RegExp) : RegExp := rs.foldr seq empty

/-- A text in ASCII, with `/i`. -/
def text (s : String) : RegExp := letters lower (js s)

/-- `[…]`. -/
def oneOf (s : String) : RegExp := letter fun c => (js s).contains c

/-- `[^…]`. -/
def noneOf (s : String) : RegExp := letter fun c => !(js s).contains c

/-- `\s*`. -/
def white : RegExp := star true (letter isWhite)

/-- `[\s\S]*`, or `[\s\S]*?`. -/
def anything (greedy : Bool) : RegExp := star greedy (letter fun _ => true)

/-- `^`. -/
def atStart : RegExp := behind Option.isNone

/-- `^`, with `/m`. -/
def atLine : RegExp :=
  behind fun c => c.all fun c => c == 0x0A || c == 0x0D || c == 0x2028 || c == 0x2029

/-- `$`. -/
def atEnd : RegExp := next Option.isNone

/-- `\r?\n`. -/
def newline : RegExp := seq (opt (oneOf "\r")) (oneOf "\n")

/-- `\r?\n\r?\n`. -/
def blankLine : RegExp := seq newline newline

/-- A group of the first match. -/
def groupOf (r : RegExp) (n : Nat) (s : JSText) : Option JSText :=
  (r.find s).map fun (_, m) => m.group n

/-- `Content-Type:\s*multipart\/`. -/
def multipartType : RegExp := sequence [text "Content-Type:", white, text "multipart/"]

/-- `boundary="([^"]+)"`. -/
def quotedBoundary : RegExp :=
  sequence [text "boundary=\"", group 1 (plus true (noneOf "\"")), oneOf "\""]

/-- `boundary=([^\s;]+)`. -/
def bareBoundary : RegExp :=
  sequence [text "boundary=",
    group 1 (plus true (letter fun c => !isWhite c && c != unit ';'))]

/-- `Content-Type:\s*([^\r\n;]+)(?:;[^\r\n]*)?`. -/
def typeHeader : RegExp :=
  sequence [text "Content-Type:", white, group 1 (plus true (noneOf "\r\n;")),
    opt (seq (oneOf ";") (star true (noneOf "\r\n")))]

/-- `Content-Transfer-Encoding:\s*([^\r\n]+)`. -/
def encodingHeader : RegExp :=
  sequence [text "Content-Transfer-Encoding:", white, group 1 (plus true (noneOf "\r\n"))]

/-- `Content-ID:\s*<?([^>\r\n]+)>?`, the group under its number. -/
def idHeader (n : Nat) : RegExp :=
  sequence [text "Content-ID:", white, opt (oneOf "<"), group n (plus true (noneOf ">\r\n")),
    opt (oneOf ">")]

/-- The images of a message whose parts are not separated well. `\Z` is the letter. -/
def imgRegex : RegExp :=
  sequence [text "Content-Type:", white,
    group 1 (seq (text "image/") (plus true (noneOf "\r\n;"))), anything false, idHeader 2,
    anything false, blankLine, group 3 (anything false),
    ahead (alt (seq newline (text "--")) (alt (seq (oneOf "\n") (text "--")) (text "Z")))]

/-- `.replace(/^["']|["']$/g, '').trim()`. -/
def unquote (s : JSText) : JSText :=
  trim (replaceAll (alt (seq atStart (oneOf "\"'")) (seq (oneOf "\"'") atEnd)) (fun _ => []) s)

/-- `.replace(/^<|>$/g, '')`. -/
def stripAngles (s : JSText) : JSText :=
  replaceAll (alt (seq atStart (oneOf "<")) (seq (oneOf ">") atEnd)) (fun _ => []) s

/-- The boundary that a header gives, when it is not empty. -/
def boundaryOf (s : JSText) : Option JSText :=
  (((groupOf quotedBoundary 1 s).or (groupOf bareBoundary 1 s)).map unquote).filter (· ≠ [])

/-! ## The decoders -/

/-- The digits of base64. -/
def base64Digit (c : UInt16) : Option Nat :=
  if 65 ≤ c && c ≤ 90 then some (c.toNat - 65)
  else if 97 ≤ c && c ≤ 122 then some (c.toNat - 71)
  else if 48 ≤ c && c ≤ 57 then some (c.toNat + 4)
  else if c = unit '+' then some 62
  else if c = unit '/' then some 63
  else none

/-- The bytes of base64 digits. -/
def base64Bytes : List Nat → List Nat
  | a :: b :: c :: d :: s =>
    (a * 4 + b / 16) :: (b % 16 * 16 + c / 4) :: (c % 4 * 64 + d) :: base64Bytes s
  | [a, b, c] => [a * 4 + b / 16, b % 16 * 16 + c / 4]
  | [a, b] => [a * 4 + b / 16]
  | _ => []

/-- Up to two `=` at the end of a text whose length is a multiple of four. -/
def dropPadding (s : JSText) : JSText :=
  if s.length % 4 ≠ 0 then s
  else if (js "==").isSuffixOf s then s.dropLast.dropLast
  else if (js "=").isSuffixOf s then s.dropLast
  else s

/-- `atob`, the bytes of a text in base64, or an exception. -/
def atob (s : JSText) : Option (List Nat) :=
  let s := dropPadding (s.filter fun c => !(js "\t\n\x0c\r ").contains c)
  if s.length % 4 = 1 then none else (s.mapM base64Digit).map base64Bytes

/-- A sequence of bytes that is not complete: its code point so far, the bytes it needs, and the
bounds of the next one. -/
structure Utf8Seq where
  codePoint : Nat
  needed : Nat
  low : Nat
  high : Nat

/-- The first byte of a character: the code points to give out, and what has begun. -/
def leadByte (b : Nat) : List Nat × Option Utf8Seq :=
  if b ≤ 0x7F then ([b], none)
  else if 0xC2 ≤ b ∧ b ≤ 0xDF then ([], some ⟨b % 0x20, 1, 0x80, 0xBF⟩)
  else if 0xE0 ≤ b ∧ b ≤ 0xEF then
    ([], some ⟨b % 0x10, 2, if b = 0xE0 then 0xA0 else 0x80, if b = 0xED then 0x9F else 0xBF⟩)
  else if 0xF0 ≤ b ∧ b ≤ 0xF4 then
    ([], some ⟨b % 0x08, 3, if b = 0xF0 then 0x90 else 0x80, if b = 0xF4 then 0x8F else 0xBF⟩)
  else ([0xFFFD], none)

/-- One byte. -/
def utf8Step (q : Option Utf8Seq) (b : Nat) : List Nat × Option Utf8Seq :=
  match q with
  | none => leadByte b
  | some q =>
    if q.low ≤ b ∧ b ≤ q.high then
      let codePoint := q.codePoint * 0x40 + b % 0x40
      if q.needed = 1 then ([codePoint], none)
      else ([], some ⟨codePoint, q.needed - 1, 0x80, 0xBF⟩)
    -- the byte is not part of the sequence: it is read again
    else (0xFFFD :: (leadByte b).1, (leadByte b).2)

/-- The code points of bytes in UTF-8. -/
def codePoints : Option Utf8Seq → List Nat → List Nat
  | none, [] => []
  | some _, [] => [0xFFFD]
  | q, b :: s => (utf8Step q b).1 ++ codePoints (utf8Step q b).2 s

/-- The code units of a code point. -/
def codeUnits (n : Nat) : JSText :=
  if n < 0x10000 then [UInt16.ofNat n]
  else [UInt16.ofNat (0xD800 + (n - 0x10000) / 0x400), UInt16.ofNat (0xDC00 + n % 0x400)]

/-- `new TextDecoder('utf-8').decode(bytes)`; a byte order mark is left out. -/
def decodeUtf8 (bytes : List Nat) : JSText :=
  (codePoints none (if [0xEF, 0xBB, 0xBF].isPrefixOf bytes then bytes.drop 3 else bytes)).flatMap
    codeUnits

/-- A digit of a hexadecimal number. -/
def hexDigit (c : UInt16) : Nat :=
  if c ≤ 57 then c.toNat - 48 else if c ≤ 70 then c.toNat - 55 else c.toNat - 87

/-- `String.fromCharCode(parseInt(hex, 16))`. -/
def hexUnit (hex : JSText) : JSText :=
  [UInt16.ofNat (hex.foldl (fun n c => 16 * n + hexDigit c) 0)]

/-- `[0-9A-F]`, with `/i`. -/
def hexLetter : RegExp :=
  letter fun c => (48 ≤ c && c ≤ 57) || (65 ≤ c && c ≤ 70) || (97 ≤ c && c ≤ 102)

/-- `=\r?\n`. -/
def softBreak : RegExp := seq (oneOf "=") newline

/-- `=([0-9A-F]{2})`. -/
def escapedByte : RegExp := seq (oneOf "=") (group 1 (seq hexLetter hexLetter))

/-- The quoted-printable branch of `decodeBody`. Every byte becomes a unit of its own. -/
def decodeQuoted (body : JSText) : JSText :=
  replaceAll escapedByte (fun m => hexUnit (m.group 1)) (replaceAll softBreak (fun _ => []) body)

section

variable (U : Unicode)

def decodeBody (body : JSText) (encoding : Option JSText) : JSText :=
  match encoding.filter (· ≠ []) with
  | none => body
  | some encoding =>
    let enc := trim (U.toLowerCase encoding)
    if enc = js "base64" then ((atob (removeWhite body)).map decodeUtf8).getD body
    else if enc = js "quoted-printable" ∨ enc = js "quotedprintable" then decodeQuoted body
    else body

/-! ## The parts -/

/-- What is found in the parts of a message. -/
structure Parts where
  /-- a `Map`, in the order of insertion -/
  imageMap : List (JSText × JSText)
  htmlBody : Option JSText
  plainBody : Option JSText

/-- `null` and the empty text are falsy. -/
def falsy (s : Option JSText) : Bool := (s.getD []).isEmpty

/-- `.set(key, value)`: a key that is there keeps its place. -/
def setImage (key value : JSText) : List (JSText × JSText) → List (JSText × JSText)
  | [] => [(key, value)]
  | e :: m => if e.1 = key then (key, value) :: m else e :: setImage key value m

/-- The `data:` URL of an image. -/
def dataUrl (contentType b64 : JSText) : JSText :=
  js "data:" ++ contentType ++ js ";base64," ++ b64

/-- The type of a part, empty when it has none. -/
def contentTypeOf (headerBlock : JSText) : JSText :=
  ((groupOf typeHeader 1 headerBlock).map fun t => U.toLowerCase (trim t)).getD []

/-- The boundary of a part that is a multipart itself. -/
def innerBoundary (headerBlock : JSText) : Option JSText :=
  if (js "multipart/").isPrefixOf (contentTypeOf U headerBlock) then boundaryOf headerBlock
  else none

/-- A part that is no multipart. -/
def processLeaf (st : Parts) (headerBlock bodyRaw : JSText) : Parts :=
  let contentType := contentTypeOf U headerBlock
  let encoding := (groupOf encodingHeader 1 headerBlock).map trim
  let cid := ((groupOf (idHeader 1) 1 headerBlock).map fun t => stripAngles (trim t)).getD []
  if (js "image/").isPrefixOf contentType then
    let url := dataUrl contentType (removeWhite bodyRaw)
    if cid = [] then st
    else { st with
      imageMap := setImage (js "<" ++ cid ++ js ">") url (setImage cid url st.imageMap) }
  else if contentType = js "text/html" && falsy st.htmlBody then
    { st with htmlBody := some (decodeBody U bodyRaw encoding) }
  else if contentType = js "text/plain" && falsy st.plainBody then
    { st with plainBody := some (decodeBody U bodyRaw encoding) }
  else st

/-- The header of a part and its body, when it has both. -/
def partOf (rawPart : JSText) : Option (JSText × JSText) :=
  let part := trim rawPart
  if part = [] || part = js "--" || (js "This is an OpenPGP").isPrefixOf part then none
  else
    match blankLine.find part with
    | none => none
    | some (headerBlock, _) =>
      let bodyRaw := trim ((seq atStart blankLine).replace (fun _ => [])
        (part.drop headerBlock.length))
      if bodyRaw = [] then none else some (headerBlock, bodyRaw)

/-- A part; `inner` is what is done with the parts of a multipart. -/
def processPart (inner : Parts → JSText → JSText → Parts) (st : Parts) (rawPart : JSText) : Parts :=
  match partOf rawPart with
  | none => st
  | some (headerBlock, bodyRaw) =>
    match innerBoundary U headerBlock with
    | some b => inner st bodyRaw b
    | none => processLeaf U st headerBlock bodyRaw

/-- The parts of a text. The first argument bounds the depth. -/
def processParts : Nat → Parts → JSText → JSText → Parts
  | 0, st, _, _ => st
  | n + 1, st, text, b => (splitFrom (js "--" ++ b) 0 text).foldl (processPart U (processParts n)) st

theorem length_trim (s : JSText) : (trim s).length ≤ s.length :=
  (List.rdropWhile_prefix _ _).length_le.trans (List.dropWhile_suffix _).length_le

theorem trim_of_free {s : JSText} (h : ∀ c ∈ s, isWhite c = false) : trim s = s := by
  have hfront : ∀ t : JSText, (∀ c ∈ t, isWhite c = false) → t.dropWhile isWhite = t := by
    intro t ht
    cases t with
    | nil => rfl
    | cons c t => rw [List.dropWhile_cons_of_neg (by simp [ht c List.mem_cons_self])]
  rw [trim, hfront s h, List.rdropWhile, hfront _ fun c hc => h c (List.mem_reverse.mp hc),
    List.reverse_reverse]

theorem length_of_mem_splitFrom {sep piece s : JSText} {skip : Nat}
    (h : piece ∈ splitFrom sep skip s) : piece.length ≤ s.length := by
  induction s generalizing skip piece with
  | nil =>
    obtain rfl : piece = [] := by simpa [splitFrom] using h
    exact Nat.le_refl 0
  | cons c s ih =>
    cases skip with
    | succ skip => exact (ih h).trans (Nat.le_succ _)
    | zero =>
      rw [splitFrom] at h
      split at h
      · rcases List.mem_cons.1 h with rfl | h
        · exact Nat.zero_le _
        · exact (ih h).trans (Nat.le_succ _)
      · cases hs : splitFrom sep 0 s with
        | nil => simp [hs] at h
        | cons first rest =>
          rw [hs, List.modifyHead_cons, List.mem_cons] at h
          rcases h with rfl | h
          · exact Nat.succ_le_succ (ih (hs ▸ List.mem_cons_self))
          · exact (ih (hs ▸ List.mem_cons_of_mem _ h)).trans (Nat.le_succ _)

theorem length_partOf {rawPart headerBlock bodyRaw : JSText}
    (h : partOf rawPart = some (headerBlock, bodyRaw)) :
    headerBlock.length + bodyRaw.length ≤ rawPart.length := by
  simp only [partOf] at h
  split at h
  · cases h
  split at h
  · cases h
  next pre m hm =>
    split at h
    · cases h
    obtain ⟨rfl, rfl⟩ : pre = headerBlock ∧ _ = bodyRaw := by simpa using h
    obtain ⟨s, hs, -⟩ := findFrom_suffix hm
    have hbody := (length_trim _).trans
      (length_replace_nil (seq atStart blankLine) ((trim rawPart).drop pre.length))
    have hpre : (trim rawPart).length = pre.length + s.length := by rw [hs, List.length_append]
    have htrim := length_trim rawPart
    rw [List.length_drop] at hbody
    omega

/-- A part without a header is no multipart. -/
theorem innerBoundary_nil : innerBoundary U [] = none := by
  have htype : groupOf typeHeader 1 [] = none := by decide
  have hprefix : (js "multipart/").isPrefixOf [] = false := by decide
  rw [innerBoundary, contentTypeOf, htype, Option.map_none, Option.getD_none, hprefix]
  rfl

theorem length_inner {rawPart headerBlock bodyRaw b : JSText}
    (h : partOf rawPart = some (headerBlock, bodyRaw))
    (hb : innerBoundary U headerBlock = some b) : bodyRaw.length < rawPart.length := by
  have hlen := length_partOf h
  have hpos : 0 < headerBlock.length := by
    rw [List.length_pos_iff]
    rintro rfl
    rw [innerBoundary_nil] at hb
    cases hb
  omega

/-- Every part inside another is shorter, so that the length of the text is depth enough. -/
theorem processParts_enough {n m : Nat} {text : JSText} (hn : text.length < n)
    (hm : text.length < m) (st : Parts) (b : JSText) :
    processParts U n st text b = processParts U m st text b := by
  induction n generalizing m st text b with
  | zero => omega
  | succ n ih =>
    obtain ⟨m, rfl⟩ : ∃ k, m = k + 1 := ⟨m - 1, by omega⟩
    refine List.foldl_ext _ _ _ fun st rawPart hmem => ?_
    have hlen := length_of_mem_splitFrom hmem
    rw [processPart, processPart]
    split
    · rfl
    next headerBlock bodyRaw hpart =>
      split
      next b' hb =>
        have hshort := length_inner U hpart hb
        exact ih (by omega) (by omega) st b'
      · rfl

/-! ## The message -/

/-- The images of a message in which no part is an image. -/
def scanImages (mimeText : JSText) (imageMap : List (JSText × JSText)) :
    List (JSText × JSText) :=
  (imgRegex.matchAll mimeText).foldl (fun imageMap (_, m) =>
    let ct := U.toLowerCase (trim (m.group 1))
    let cid := stripAngles (trim (m.group 2))
    let b64 := removeWhite (m.group 3)
    if cid ≠ [] && b64 ≠ [] && !imageMap.any (·.1 = cid) then setImage cid (dataUrl ct b64) imageMap
    else imageMap) imageMap

/-- `html` with the images in the place of their identifiers. -/
def putImages (imageMap : List (JSText × JSText)) (html : JSText) : JSText :=
  imageMap.foldl (fun html (cid, url) =>
    let cleanCid := stripAngles cid
    let html := replaceAll (letters U.canonicalize (js "cid:" ++ cleanCid))
      (fun m => substitute m url) html
    replaceAll (letters U.canonicalize (js "cid:<" ++ cleanCid ++ js ">"))
      (fun m => substitute m url) html) html

/-- The body after a header that begins at `headerStart`, when it is not empty. -/
def bodyAfter (mimeText boundary : JSText) (headerStart : Nat) : Option JSText :=
  match ((indexFrom (js "\r\n\r\n") headerStart mimeText).map (· + 4)).or
      ((indexFrom (js "\n\n") headerStart mimeText).map (· + 2)) with
  | none => none
  | some bodyStart =>
    let bodyEnd := ((indexFrom (js "\r\n--" ++ boundary) bodyStart mimeText).or
      (indexFrom (js "\n--" ++ boundary) bodyStart mimeText)).getD mimeText.length
    let body := trim ((mimeText.drop bodyStart).take (bodyEnd - bodyStart))
    if body = [] then none
    else
      let headerBlock := (mimeText.drop headerStart).take (bodyStart - headerStart)
      let encoding := (groupOf encodingHeader 1 headerBlock).map trim
      some (decodeBody U body encoding) |>.filter (· ≠ [])

/-- The first body of a type. -/
def tryExtract (type : String) (mimeText boundary : JSText) : Option JSText :=
  let headerRegex := sequence
    [text "Content-Type:", white, text type, star true (noneOf "\r\n"), newline]
  (headerRegex.matchAll mimeText).findSome? fun (headerStart, _) =>
    bodyAfter U mimeText boundary headerStart

/-- What is made of the parts of a message. -/
def textOfParts (mimeText boundary : JSText) (parts : Parts) : Option JSText :=
  let imageMap := if parts.imageMap = [] then scanImages U mimeText [] else parts.imageMap
  if !falsy parts.htmlBody then parts.htmlBody.map (putImages U imageMap)
  else if !falsy parts.plainBody then parts.plainBody
  else
    (tryExtract U "text/html" mimeText boundary).or (tryExtract U "text/plain" mimeText boundary)

def extractTextFromMime (mimeText : JSText) : Option JSText :=
  if !multipartType.test mimeText || !(text "boundary=").test mimeText then none
  else
    (boundaryOf mimeText).bind fun boundary =>
      textOfParts U mimeText boundary
        (processParts U (mimeText.length + 1) ⟨[], none, none⟩ mimeText boundary)

end

end E2Mail.Frontend.Pgp
