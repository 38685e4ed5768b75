import E2Mail.Imap.ThreadIndex
import Mathlib.Data.List.Infix
import Mathlib.Data.List.TakeWhile

/-!
# Search queries

A query is cut into tokens, byte by byte, and the tokens are put together to a
`SearchQuery`. From it come the criteria of an IMAP SEARCH, and a test that the
backend can make itself on the nodes of a thread index.

* `tokenizeSearch`, `parseSearchQuery` — the query;
* `SearchQuery.buildCriteria` — what the server is asked for;
* `SearchQuery.matchesNode` — the test on a node.
-/

namespace E2Mail.Imap

open Lib

/-- Text as Go has it. -/
abbrev Bytes := List UInt8

/-- The bytes of a string. -/
def utf8 (s : String) : Bytes := s.toUTF8.data.toList

/-- What the queries take from the standard library. -/
structure SearchLib where
  /-- `strings.ToLower` -/
  toLower : Bytes → Bytes
  /-- `strings.TrimSpace` -/
  trimSpace : Bytes → Bytes
  /-- `parseSearchDate`: `time.Parse` with one layout after the other; 0 is the zero time -/
  parseSearchDate : Bytes → Option Nat
  /-- `parseSearchSize`: a number by `strconv.ParseFloat` and its unit -/
  parseSearchSize : Bytes → Option Int

variable (L : SearchLib)

/-- `strings.Contains`. -/
def containsBytes (s sub : Bytes) : Bool := decide (sub <:+: s)

/-! ## Tokens -/

/-- `searchToken`: an operator with its value, or plain text, with no operator. -/
structure SearchToken where
  /-- `key`, in lower case -/
  key : Bytes
  /-- `value` -/
  value : Bytes
  deriving DecidableEq, Repr

/-- `unicode.IsSpace` of a byte read as a character. -/
def isSpaceByte (c : UInt8) : Bool := isSpace (Char.ofNat c.toNat)

/-- `isSearchKeyChar`: a letter, a digit or a hyphen. -/
def isSearchKeyChar (c : UInt8) : Bool :=
  (97 ≤ c && c ≤ 122) || (65 ≤ c && c ≤ 90) || (48 ≤ c && c ≤ 57) || c == 45

/-- `strings.ToLower` of letters, digits and hyphens. -/
def lowerKey (key : Bytes) : Bytes := key.map fun c => if 65 ≤ c && c ≤ 90 then c + 32 else c

/-- `readWord`: a word, or what is between quotes, and what comes after. A quote that is
not closed goes to the end. -/
def readWord : Bytes → Bytes × Bytes
  | [] => ([], [])
  | c :: q =>
    if c == 34 || c == 39 then
      (q.takeWhile (· != c), (q.dropWhile (· != c)).drop 1)
    else
      ((c :: q).takeWhile fun d => !isSpaceByte d, (c :: q).dropWhile fun d => !isSpaceByte d)

theorem length_dropWhile_le {α : Type} (p : α → Bool) (l : List α) :
    (l.dropWhile p).length ≤ l.length := (List.dropWhile_suffix p).length_le

/-- A word takes something of the query. -/
theorem length_readWord {c : UInt8} {q : Bytes} (h : isSpaceByte c = false) :
    (readWord (c :: q)).2.length ≤ q.length := by
  rw [readWord]
  by_cases hquote : (c == 34 || c == 39) = true
  · rw [if_pos hquote, List.length_drop]
    have hle := length_dropWhile_le (· != c) q
    omega
  · rw [if_neg hquote, List.dropWhile_cons_of_pos (by rw [h]; rfl)]
    exact length_dropWhile_le _ q

theorem length_readWord_le (q : Bytes) : (readWord q).2.length ≤ q.length := by
  cases q with
  | nil => exact Nat.le_refl 0
  | cons c q =>
    rw [readWord]
    split
    · have hle := length_dropWhile_le (· != c) q
      rw [List.length_drop, List.length_cons]
      omega
    · exact length_dropWhile_le _ _

theorem isSpaceByte_head {q q' : Bytes} {c : UInt8} (h : q.dropWhile isSpaceByte = c :: q') :
    isSpaceByte c = false := by
  have hne : q.dropWhile isSpaceByte ≠ [] := by
    rw [h]
    exact List.cons_ne_nil c q'
  have hhead := List.head_dropWhile_not isSpaceByte hne
  simpa [h] using hhead

/-- What comes after the operator and the colon, if there are any, with the operator. -/
def readKey (q : Bytes) : Option (Bytes × Bytes) :=
  match q.dropWhile isSearchKeyChar with
  | c :: rest =>
    if c == 58 then some (lowerKey (q.takeWhile isSearchKeyChar), rest) else none
  | [] => none

theorem length_readKey {q rest : Bytes} {key : Bytes} (h : readKey q = some (key, rest)) :
    rest.length < q.length := by
  rw [readKey] at h
  split at h
  · rename_i c rest' hq
    by_cases hc : (c == 58) = true
    · rw [if_pos hc] at h
      obtain ⟨-, rfl⟩ := Prod.mk.inj (Option.some.inj h)
      have hle := length_dropWhile_le isSearchKeyChar q
      rw [hq, List.length_cons] at hle
      omega
    · rw [if_neg hc] at h
      cases h
  · cases h

/-- `tokenizeSearch`. -/
def tokenizeSearch (q : Bytes) : List SearchToken :=
  match _hq : q.dropWhile isSpaceByte with
  | [] => []
  | c :: q' =>
    -- an operator with no value is read again as plain text
    let plain :=
      let word := readWord (c :: q')
      if word.1 = [] then tokenizeSearch word.2
      else ⟨[], word.1⟩ :: tokenizeSearch word.2
    match _hkey : readKey (c :: q') with
    | none => plain
    | some (key, rest) =>
      let val := readWord (rest.dropWhile isSpaceByte)
      if val.1 = [] then plain else ⟨key, val.1⟩ :: tokenizeSearch val.2
termination_by q.length
decreasing_by
  all_goals
    have hle := length_dropWhile_le isSpaceByte q
    rw [_hq, List.length_cons] at hle
  · have hword := length_readWord (q := q') (isSpaceByte_head _hq)
    omega
  · have hword := length_readWord (q := q') (isSpaceByte_head _hq)
    omega
  · have hrest := length_readKey _hkey
    have hword := length_readWord_le (rest.dropWhile isSpaceByte)
    have hdrop := length_dropWhile_le isSpaceByte rest
    rw [List.length_cons] at hrest
    omega

/-! ## Queries -/

/-- `SearchQuery`. -/
structure SearchQuery where
  text : List Bytes
  /-- `From` -/
  senders : List Bytes
  /-- `To` -/
  recipients : List Bytes
  cc : List Bytes
  bcc : List Bytes
  subject : List Bytes
  body : List Bytes
  unread : Bool
  read : Bool
  starred : Bool
  hasAttach : Bool
  /-- 0 is the zero time -/
  after : Nat
  /-- 0 is the zero time -/
  before : Nat
  larger : Int
  smaller : Int
  deriving DecidableEq, Repr

/-- A query without conditions. -/
def SearchQuery.empty : SearchQuery :=
  ⟨[], [], [], [], [], [], [], false, false, false, false, 0, 0, 0, 0⟩

/-- `IsEmpty`. -/
def SearchQuery.isEmpty (q : SearchQuery) : Bool :=
  q.text.isEmpty && q.senders.isEmpty && q.recipients.isEmpty && q.cc.isEmpty && q.bcc.isEmpty &&
    q.subject.isEmpty && q.body.isEmpty && !q.unread && !q.read && !q.starred && !q.hasAttach &&
    q.after == 0 && q.before == 0 && q.larger == 0 && q.smaller == 0

/-- `ignoredOperators`. -/
def ignoredOperators : List Bytes := ["in", "label", "category", "list", "filename"].map utf8

/-- `normalizeOpValue`. -/
def normalizeOpValue (s : Bytes) : Bytes := L.toLower (L.trimSpace s)

/-- The value is one of the words. -/
def isWord (v : Bytes) (words : List String) : Bool := words.any fun w => utf8 w == v

/-- One token of `ParseSearchQuery`. -/
def SearchQuery.add (pq : SearchQuery) (t : SearchToken) : SearchQuery :=
  if t.key = [] || isWord t.key ["text"] then { pq with text := pq.text ++ [t.value] }
  else if isWord t.key ["from"] then { pq with senders := pq.senders ++ [t.value] }
  else if isWord t.key ["to"] then { pq with recipients := pq.recipients ++ [t.value] }
  else if isWord t.key ["cc"] then { pq with cc := pq.cc ++ [t.value] }
  else if isWord t.key ["bcc"] then { pq with bcc := pq.bcc ++ [t.value] }
  else if isWord t.key ["subject"] then { pq with subject := pq.subject ++ [t.value] }
  else if isWord t.key ["body"] then { pq with body := pq.body ++ [t.value] }
  else if isWord t.key ["is"] then
    let v := normalizeOpValue L t.value
    if isWord v ["unread", "new"] then { pq with unread := true }
    else if isWord v ["read", "seen"] then { pq with read := true }
    else if isWord v ["starred", "flagged", "important"] then { pq with starred := true }
    else pq
  else if isWord t.key ["has"] then
    let v := normalizeOpValue L t.value
    if isWord v ["attachment", "attach"] then { pq with hasAttach := true }
    else if isWord v ["star", "starred"] then { pq with starred := true }
    else if isWord v ["unread"] then { pq with unread := true }
    else pq
  else if isWord t.key ["after", "newer"] then
    match L.parseSearchDate t.value with
    | some d => { pq with after := d }
    | none => pq
  else if isWord t.key ["before", "older"] then
    match L.parseSearchDate t.value with
    | some d => { pq with before := d }
    | none => pq
  else if isWord t.key ["larger", "size"] then
    match L.parseSearchSize t.value with
    | some v => { pq with larger := v }
    | none => pq
  else if isWord t.key ["smaller"] then
    match L.parseSearchSize t.value with
    | some v => { pq with smaller := v }
    | none => pq
  else if ignoredOperators.contains t.key then pq
  else { pq with text := pq.text ++ [t.value] }

/-- `ParseSearchQuery`. -/
def parseSearchQuery (query : Bytes) : SearchQuery :=
  (tokenizeSearch query).foldl (SearchQuery.add L) SearchQuery.empty

/-! ## Criteria -/

/-- One condition of an `imap.SearchCriteria`. -/
inductive Criterion
  | text (v : Bytes)
  | header (key : String) (v : Bytes)
  | body (v : Bytes)
  | notFlag (flag : String)
  | flag (flag : String)
  | since (d : Nat)
  | before (d : Nat)
  | larger (n : Int)
  | smaller (n : Int)
  deriving DecidableEq, Repr

/-- `buildCriteria`: the conditions that must all hold; none of them is nil. -/
def SearchQuery.buildCriteria (q : SearchQuery) (skipAttachment : Bool) : List Criterion :=
  q.text.map .text ++ q.senders.map (.header "From") ++ q.recipients.map (.header "To") ++
    q.cc.map (.header "Cc") ++ q.bcc.map (.header "Bcc") ++ q.subject.map (.header "Subject") ++
    q.body.map .body ++
    (if q.unread then [.notFlag "\\Seen"] else []) ++
    (if q.read then [.flag "\\Seen"] else []) ++
    (if q.starred then [.flag "\\Flagged"] else []) ++
    (if q.hasAttach && !skipAttachment then [.flag "\\HasAttachment"] else []) ++
    (if q.after ≠ 0 then [.since q.after] else []) ++
    (if q.before ≠ 0 then [.before q.before] else []) ++
    (if q.larger > 0 then [.larger q.larger] else []) ++
    (if q.smaller > 0 then [.smaller q.smaller] else [])

/-! ## The test on a node -/

/-- `matchesText`. -/
def matchesText (s : Bytes) (subs : List Bytes) : Bool :=
  subs.any fun sub => sub != [] && containsBytes (L.toLower s) (L.toLower sub)

/-- `nodeFrom`. -/
def nodeFrom (n : ThreadNode) (field : Bytes) : Bool :=
  n.summary.senders.any fun fe =>
    containsBytes (L.toLower (utf8 fe.address)) (L.toLower field) ||
      containsBytes (L.toLower (utf8 fe.name)) (L.toLower field)

/-- `MatchesNode`. -/
def SearchQuery.matchesNode (q : SearchQuery) (n : ThreadNode) : Bool :=
  q.isEmpty ||
    ((q.text.all fun kw => matchesText L (utf8 n.subject) [kw] || nodeFrom L n kw) &&
      (q.senders.all fun v => nodeFrom L n v) &&
      (q.subject.all fun v => matchesText L (utf8 n.subject) [v]) &&
      !(q.unread && !n.summary.unread) &&
      !(q.read && n.summary.unread) &&
      !(q.starred && !n.summary.starred) &&
      !(q.after != 0 && n.date < q.after) &&
      !(q.before != 0 && q.before < n.date))

end E2Mail.Imap
