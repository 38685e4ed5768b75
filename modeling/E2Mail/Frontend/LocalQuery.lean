import E2Mail.Lib.RegexLanguage
import E2Mail.Frontend.MimeText

/-!
# The filter over the loaded messages

While a search is typed, the list shows those of the loaded messages that the query fits. The
operators of a query are cut out with their colon, and compared with words that have none.

* `tokenizeLocalQuery`, `matchesLocalQuery` — the query and the filter;
* `Satisfies` — what a token asks of a message;
* `matchesLocalQuery_iff_found` — what the filter asks;
* `keepsExactly_iff` — when both are the same.
-/

namespace E2Mail.Frontend.Preview

open Lib Lib.Regex
open Pgp (Unicode RegExp trim oneOf noneOf sequence atStart atEnd indexOfText
  indexOfText_isSome)

/-! ## The query -/

/-- `EmailAddress`. -/
structure EmailAddress where
  name : JSText
  address : JSText
  deriving DecidableEq

/-- The fields of `MessageSummary` that the filter reads; what is missing is empty. -/
structure MessageSummary where
  subject : JSText
  snippet : JSText
  from_ : List EmailAddress
  to_ : List EmailAddress
  unread : Bool
  starred : Bool
  hasAttachment : Bool
  deriving DecidableEq

/-- The fields of `ThreadSummary` that the filter reads. -/
structure ThreadSummary where
  subject : JSText
  unreadCount : Nat
  starred : Bool
  hasAttachment : Bool
  messages : List MessageSummary
  deriving DecidableEq

/-- `LocalToken`. -/
structure LocalToken where
  op : JSText
  val : JSText
  deriving DecidableEq

/-- `[a-z-]`, with `/i`. -/
def opLetter : RegExp := letter fun c => (97 ≤ lower c && lower c ≤ 122) || c == unit '-'

/-- `.`. -/
def anyUnit : RegExp :=
  letter fun c => !(c == 0x0A || c == 0x0D || c == 0x2028 || c == 0x2029)

/-- `[a-z-]+:`. -/
def operatorText : RegExp := seq (plus true opLetter) (oneOf ":")

/-- `"(?:\\.|[^"\\])*"`. -/
def doubleQuoted : RegExp :=
  sequence [oneOf "\"", star true (alt (seq (oneOf "\\") anyUnit) (noneOf "\"\\")), oneOf "\""]

/-- `'[^']*'`. -/
def singleQuoted : RegExp := sequence [oneOf "'", star true (noneOf "'"), oneOf "'"]

/-- `([a-z-]+:)?("(?:\\.|[^"\\])*"|'[^']*'|\S+)`. -/
def tokenText : RegExp :=
  seq (opt (group 1 operatorText))
    (group 2 (alt doubleQuoted (alt singleQuoted (plus true (letter fun c => !isWhite c)))))

/-- `.replace(/^["']|["']$/g, '')`. -/
def unquote (s : JSText) : JSText :=
  replaceAll (alt (seq atStart (oneOf "\"'")) (seq (oneOf "\"'") atEnd)) (fun _ => []) s

variable (U : Unicode)

/-- The token of a match, if there is something in it. -/
def tokenOf (m : Match UInt16) : Option LocalToken :=
  let op := if m.group 1 = [] then [] else U.toLowerCase (m.group 1)
  if unquote (m.group 2) = [] then none else some ⟨op, unquote (m.group 2)⟩

/-- `tokenizeLocalQuery`. -/
def tokenizeLocalQuery (q : JSText) : List LocalToken :=
  (tokenText.matchAll q).filterMap fun (_, m) => tokenOf U m

/-! ## The filter -/

/-- `.includes`. -/
def includes (s text : JSText) : Bool := (indexOfText text s).isSome

/-- `containsAddr`. -/
def containsAddr (list : List EmailAddress) (needle : JSText) : Bool :=
  list.any fun e => includes (U.toLowerCase e.address) (U.toLowerCase needle) ||
    includes (U.toLowerCase e.name) (U.toLowerCase needle)

/-- The operators that the filter knows. -/
def ops : List JSText := ["from", "to", "subject", "cc", "bcc", "body", "text", "is", "has"].map js

/-- The subject or the snippet has the text in it. -/
def inPreview (msg : MessageSummary) (val : JSText) : Bool :=
  includes (U.toLowerCase msg.snippet) val || includes (U.toLowerCase msg.subject) val

/-- One turn of the loop over the tokens: the message is not sorted out. -/
def passes (msg : MessageSummary) (t : LocalToken) : Bool :=
  let val := U.toLowerCase t.val
  if t.op = js "from" then containsAddr U msg.from_ t.val
  else if t.op = js "to" then containsAddr U msg.to_ t.val
  else if t.op = js "subject" then includes (U.toLowerCase msg.subject) val
  else if t.op = js "body" ∨ t.op = js "text" then inPreview U msg val
  else if t.op = js "is" then
    !(val == js "unread" && !msg.unread) && !(val == js "read" && msg.unread) &&
      !(val == js "starred" && !msg.starred)
  else if t.op = js "has" then !(val == js "attachment" && !msg.hasAttachment)
  else if ops.contains t.op then true
  else inPreview U msg val

/-- The texts of a message that a plain word is looked for in. -/
def fields (msg : MessageSummary) : List JSText :=
  [msg.subject, msg.snippet] ++ msg.from_.flatMap (fun f => [f.name, f.address]) ++
    msg.to_.flatMap fun t => [t.name, t.address]

/-- `matchesLocalQuery`. -/
def matchesLocalQuery (msg : MessageSummary) (query : JSText) : Bool :=
  let tokens := tokenizeLocalQuery U query
  if tokens = [] then true
  else
    let hay := U.toLowerCase ((js " ").intercalate (fields msg))
    let plains := tokens.filter (·.op = [])
    if plains.all fun t => includes hay (U.toLowerCase t.val) then tokens.all (passes U msg)
    else false

/-- `matchesLocalThread`. -/
def matchesLocalThread (thread : ThreadSummary) (query : JSText) : Bool :=
  if thread.messages ≠ [] then thread.messages.any fun m => matchesLocalQuery U m query
  else
    matchesLocalQuery U
      { subject := thread.subject, snippet := [], from_ := [], to_ := []
        unread := decide (thread.unreadCount > 0), starred := thread.starred
        hasAttachment := thread.hasAttachment }
      query

/-- What the list looks at to see whether the server's answer is there. -/
structure ListState where
  searchInput : JSText
  searchQuery : JSText
  isFetching : Bool
  isUnreadView : Bool
  deriving DecidableEq

/-- `applyLocalPreview`. -/
def ListState.applyLocalPreview (s : ListState) : Bool :=
  let isFreshForInput := trim s.searchInput == s.searchQuery && !s.isFetching
  if s.isUnreadView then trim s.searchInput != [] else !isFreshForInput

/-- `displayMessages`. -/
def displayMessages (s : ListState) (messages : List MessageSummary) : List MessageSummary :=
  if !s.applyLocalPreview || trim s.searchInput == [] then messages
  else messages.filter fun m => matchesLocalQuery U m (trim s.searchInput)

/-- `displayThreads`. -/
def displayThreads (s : ListState) (threads : List ThreadSummary) : List ThreadSummary :=
  if !s.applyLocalPreview || trim s.searchInput == [] then threads
  else threads.filter fun t => matchesLocalThread U t (trim s.searchInput)

/-! ## What a query asks -/

/-- What the operator of a token stands for; its colon belongs to it. -/
inductive Field where
  | word
  | from_
  | to_
  | subject
  | body
  | is
  | has
  | other
  deriving DecidableEq

/-- The field of an operator. -/
def fieldOf (op : JSText) : Field :=
  if op = [] then .word
  else if op = js "from:" then .from_
  else if op = js "to:" then .to_
  else if op = js "subject:" then .subject
  else if op = js "body:" ∨ op = js "text:" then .body
  else if op = js "is:" then .is
  else if op = js "has:" then .has
  else .other

/-- An address or a name has the text in it. -/
def Mentions (list : List EmailAddress) (val : JSText) : Prop :=
  ∃ e ∈ list, val <:+: U.toLowerCase e.address ∨ val <:+: U.toLowerCase e.name

/-- The subject or the snippet has the text in it. -/
def Found (msg : MessageSummary) (val : JSText) : Prop :=
  val <:+: U.toLowerCase msg.snippet ∨ val <:+: U.toLowerCase msg.subject

/-- What a token asks of a message: of the full text only the subject and the snippet are
loaded, and what the filter does not know it leaves to the server. -/
def Satisfies (msg : MessageSummary) (t : LocalToken) : Prop :=
  let val := U.toLowerCase t.val
  match fieldOf t.op with
  | .word => ∃ text ∈ fields msg, val <:+: U.toLowerCase text
  | .from_ => Mentions U msg.from_ val
  | .to_ => Mentions U msg.to_ val
  | .subject => val <:+: U.toLowerCase msg.subject
  | .body => Found U msg val
  | .is => (val = js "unread" → msg.unread = true) ∧ (val = js "read" → msg.unread = false) ∧
      (val = js "starred" → msg.starred = true)
  | .has => val = js "attachment" → msg.hasAttachment = true
  | .other => True

/-- The message is kept exactly when it is what the query asks for. -/
def KeepsExactly (msg : MessageSummary) (query : JSText) : Prop :=
  matchesLocalQuery U msg query = true ↔ ∀ t ∈ tokenizeLocalQuery U query, Satisfies U msg t

/-- `.toLowerCase()`: letters of ASCII alone, and texts with a blank between them each by
itself. -/
structure Lowercases : Prop where
  ascii : ∀ s : JSText, (∀ c ∈ s, c < 128) → U.toLowerCase s = s.map lower
  blank : ∀ s t : JSText, U.toLowerCase (s ++ js " " ++ t) = U.toLowerCase s ++ js " " ++ U.toLowerCase t

variable {U} {msg : MessageSummary} {query : JSText}

/-! ## Tokens -/

theorem lt_of_opLetter {c : UInt16} (h : ((97 ≤ lower c && lower c ≤ 122) || c == unit '-') = true) :
    c < 128 := by
  rw [Bool.or_eq_true, Bool.and_eq_true, decide_eq_true_iff, decide_eq_true_iff, beq_iff_eq] at h
  rcases h with ⟨hlow, hhigh⟩ | rfl
  · rw [lower] at hlow hhigh
    split at hhigh
    · rename_i hcapital
      rw [Bool.and_eq_true, decide_eq_true_iff, decide_eq_true_iff] at hcapital
      rw [UInt16.le_iff_toNat_le] at hcapital
      rw [UInt16.lt_iff_toNat_lt]
      have hle : c.toNat ≤ 90 := UInt16.le_iff_toNat_le.1 hcapital.2
      exact Nat.lt_of_le_of_lt hle (by decide)
    · rw [UInt16.lt_iff_toNat_lt]
      have hle : c.toNat ≤ 122 := UInt16.le_iff_toNat_le.1 hhigh
      exact Nat.lt_of_le_of_lt hle (by decide)
  · decide

/-- **An operator** keeps its colon. -/
theorem op_of_mem (hU : Lowercases U) {t : LocalToken} (ht : t ∈ tokenizeLocalQuery U query) :
    t.op = [] ∨ ∃ u, t.op = u ++ js ":" := by
  obtain ⟨⟨i, m⟩, hm, htoken⟩ := List.mem_filterMap.1 ht
  change tokenOf U m = some t at htoken
  rw [tokenOf] at htoken
  split at htoken
  · cases htoken
  · obtain rfl := Option.some.inj htoken
    dsimp only
    split
    · exact .inl rfl
    · rename_i hne
      right
      have hgroup := (matchAll_captures hm 1).resolve_left hne
      have hop : m.group 1 ∈ operatorText.language := by
        simpa [tokenText, opt, captures, operatorText, plus, opLetter, doubleQuoted, singleQuoted,
          Pgp.sequence, oneOf, noneOf, anyUnit] using hgroup
      obtain ⟨u, hu, v, ⟨c, hc, rfl⟩, heq⟩ := Language.mem_mul.1 hop
      have hletters := mem_language_plus hu
      obtain rfl : c = 58 := by simpa [js] using hc
      have hascii : ∀ c ∈ u ++ [58], c < 128 := by
        intro c hc
        rcases List.mem_append.1 hc with hc | hc
        · exact lt_of_opLetter (hletters c hc)
        · obtain rfl := List.mem_singleton.1 hc
          decide
      refine ⟨u.map lower, ?_⟩
      rw [← heq, hU.ascii _ hascii, List.map_append]
      rfl

/-! ## The texts of a message -/

theorem includes_iff {s val : JSText} : includes s val = true ↔ val <:+: s := by
  rw [includes, indexOfText_isSome]

theorem inPreview_iff {val : JSText} : inPreview U msg val = true ↔ Found U msg val := by
  rw [inPreview, Bool.or_eq_true, includes_iff, includes_iff, Found]

/-- In lower case the fields stand next to each other as they did before. -/
theorem infix_toLowerCase_intercalate (hU : Lowercases U) {val text : JSText} {texts : List JSText}
    (ht : text ∈ texts) (h : val <:+: U.toLowerCase text) :
    val <:+: U.toLowerCase ((js " ").intercalate texts) := by
  induction texts with
  | nil => cases ht
  | cons first texts ih =>
    cases texts with
    | nil =>
      obtain rfl := List.mem_singleton.1 ht
      simpa using h
    | cons second texts =>
      have hjoin : (js " ").intercalate (first :: second :: texts) =
          first ++ js " " ++ (js " ").intercalate (second :: texts) := by
        simp [List.intercalate, List.intersperse]
      rw [hjoin, hU.blank]
      rcases List.mem_cons.1 ht with rfl | ht
      · rw [List.append_assoc]
        exact h.trans (List.prefix_append _ _).isInfix
      · exact (ih ht).trans (List.suffix_append _ _).isInfix

/-! ## What the filter asks -/

/-- A token is only looked for in the subject and the snippet. -/
theorem passes_iff {t : LocalToken} (ht : t.op = [] ∨ ∃ u, t.op = u ++ js ":") :
    passes U msg t = true ↔ Found U msg (U.toLowerCase t.val) := by
  have hops : ∀ op ∈ ops, op ≠ [] ∧ ¬ js ":" <:+ op := by decide
  have hne : ∀ op ∈ ops, t.op ≠ op := by
    intro op hop heq
    rcases ht with hnil | ⟨u, hu⟩
    · exact (hops op hop).1 (heq.symm.trans hnil)
    · exact (hops op hop).2 ⟨u, hu.symm.trans heq⟩
  have hcontains : ops.contains t.op = false := by
    rw [Bool.eq_false_iff]
    exact fun hmem => hne t.op (List.contains_iff_mem.1 hmem) rfl
  have hnot : ∀ op ∈ ["from", "to", "subject", "cc", "bcc", "body", "text", "is", "has"],
      t.op ≠ js op := fun op hop => hne _ (List.mem_map_of_mem hop)
  rw [← inPreview_iff, passes, hcontains]
  simp [hnot]

/-- **What the filter asks**: every token is found in the subject or the snippet, whatever its
operator. -/
theorem matchesLocalQuery_iff_found (hU : Lowercases U) :
    matchesLocalQuery U msg query = true ↔
      ∀ t ∈ tokenizeLocalQuery U query, Found U msg (U.toLowerCase t.val) := by
  have hpasses : (tokenizeLocalQuery U query).all (passes U msg) = true ↔
      ∀ t ∈ tokenizeLocalQuery U query, Found U msg (U.toLowerCase t.val) := by
    rw [List.all_eq_true]
    exact forall₂_congr fun t ht => passes_iff (op_of_mem hU ht)
  rw [matchesLocalQuery]
  dsimp only
  split
  · rename_i hnil
    simp [hnil]
  · split
    · exact hpasses
    · rename_i hplains
      refine iff_of_false Bool.false_ne_true fun hfound => hplains ?_
      rw [List.all_eq_true]
      intro t ht
      rw [includes_iff]
      have hmem : ∀ text, text = msg.subject ∨ text = msg.snippet → text ∈ fields msg := by
        rintro text (rfl | rfl) <;> simp [fields]
      rcases hfound t (List.mem_of_mem_filter ht) with h | h
      · exact infix_toLowerCase_intercalate hU (hmem _ (.inr rfl)) h
      · exact infix_toLowerCase_intercalate hU (hmem _ (.inl rfl)) h

/-! ## When both are the same -/

/-- A token is tested on a field of its own. -/
def TestsField (t : LocalToken) : Prop := fieldOf t.op ∈ [.from_, .to_, .subject, .is, .has]

instance : DecidablePred TestsField := fun t =>
  inferInstanceAs (Decidable (fieldOf t.op ∈ [.from_, .to_, .subject, .is, .has]))

/-- The subject and the snippet say enough: what is found in them has passed the tests on other
fields as well, and what passes all tests has every value in them. -/
structure PreviewSuffices (U : Unicode) (msg : MessageSummary) (query : JSText) : Prop where
  tested : (∀ t ∈ tokenizeLocalQuery U query, Found U msg (U.toLowerCase t.val)) →
    ∀ t ∈ tokenizeLocalQuery U query, TestsField t → Satisfies U msg t
  found : (∀ t ∈ tokenizeLocalQuery U query, Satisfies U msg t) →
    ∀ t ∈ tokenizeLocalQuery U query, fieldOf t.op ≠ .body → Found U msg (U.toLowerCase t.val)

/-- A word that is found is in the message. -/
theorem satisfies_of_found {t : LocalToken} (ht : ¬ TestsField t)
    (h : Found U msg (U.toLowerCase t.val)) : Satisfies U msg t := by
  rw [TestsField] at ht
  rw [Satisfies]
  cases hfield : fieldOf t.op with
  | word =>
    rcases h with h | h
    · exact ⟨msg.snippet, by simp [fields], h⟩
    · exact ⟨msg.subject, by simp [fields], h⟩
  | body => exact h
  | other => trivial
  | _ => simp [hfield] at ht

theorem found_of_satisfies {t : LocalToken} (ht : fieldOf t.op = .body) (h : Satisfies U msg t) :
    Found U msg (U.toLowerCase t.val) := by
  rw [Satisfies, ht] at h
  exact h

/-- **A message is kept exactly when the query asks for it**, where the subject and the snippet
say enough. -/
theorem keepsExactly_iff (hU : Lowercases U) (msg : MessageSummary) (query : JSText) :
    KeepsExactly U msg query ↔ PreviewSuffices U msg query := by
  rw [KeepsExactly, matchesLocalQuery_iff_found hU]
  constructor
  · intro h
    exact ⟨fun hfound t ht _ => h.1 hfound t ht, fun hsat t ht _ => h.2 hsat t ht⟩
  · intro h
    constructor
    · intro hfound t ht
      by_cases htests : TestsField t
      · exact h.tested hfound t ht htests
      · exact satisfies_of_found htests (hfound t ht)
    · intro hsat t ht
      by_cases hbody : fieldOf t.op = .body
      · exact found_of_satisfies hbody (hsat t ht)
      · exact h.found hsat t ht hbody

/-! ## The list -/

/-- A message is shown if its query is not looked at yet, or each of its words is found. -/
theorem mem_displayMessages (hU : Lowercases U) {s : ListState} {messages : List MessageSummary} :
    msg ∈ displayMessages U s messages ↔ msg ∈ messages ∧
      (s.applyLocalPreview = true → ∀ t ∈ tokenizeLocalQuery U (trim s.searchInput),
        Found U msg (U.toLowerCase t.val)) := by
  have hnone : tokenizeLocalQuery U [] = [] := rfl
  rw [displayMessages]
  cases s.applyLocalPreview with
  | false => simp
  | true =>
    by_cases hnil : trim s.searchInput = []
    · simp [hnil, hnone]
    · rw [if_neg (by simpa using hnil), List.mem_filter, matchesLocalQuery_iff_found hU]
      simp

/-- A thread is kept for one of its messages. -/
theorem matchesLocalThread_iff (hU : Lowercases U) {thread : ThreadSummary}
    (hne : thread.messages ≠ []) :
    matchesLocalThread U thread query = true ↔ ∃ m ∈ thread.messages,
      ∀ t ∈ tokenizeLocalQuery U query, Found U m (U.toLowerCase t.val) := by
  rw [matchesLocalThread, if_pos hne, List.any_eq_true]
  exact exists_congr fun m => and_congr_right fun _ => matchesLocalQuery_iff_found hU

/-- Letters of ASCII alone. -/
def asciiLetters : Unicode := ⟨List.map lower, lower⟩

theorem lowercases_ascii : Lowercases asciiLetters where
  ascii := fun _ _ => rfl
  blank := fun s t => by
    change (s ++ js " " ++ t).map lower = _
    rw [List.map_append, List.map_append]
    rfl

/-- A message from Bob. -/
def fromBob : MessageSummary where
  subject := js "Lunch"
  snippet := []
  from_ := [⟨js "Bob", js "bob@example.com"⟩]
  to_ := []
  unread := true
  starred := false
  hasAttachment := false

/-- It is found by its subject. -/
theorem lunch_kept : KeepsExactly asciiLetters fromBob (js "lunch") := by
  have htokens : tokenizeLocalQuery asciiLetters (js "lunch") = [⟨[], js "lunch"⟩] := by
    decide +kernel
  have hfound : Found asciiLetters fromBob (asciiLetters.toLowerCase (js "lunch")) := by
    right
    decide +kernel
  refine (keepsExactly_iff lowercases_ascii fromBob (js "lunch")).2 ⟨?_, ?_⟩
  · intro _ t ht htests
    rw [htokens, List.mem_singleton] at ht
    rw [ht] at htests
    exact absurd htests (by decide)
  · intro _ t ht _
    rw [htokens, List.mem_singleton] at ht
    rw [ht]
    exact hfound

/-- **But not by its sender**: the address is looked for in the subject and the snippet. -/
theorem sender_not_kept :
    ¬ ∀ (U : Unicode) (_ : Lowercases U) (msg : MessageSummary) (query : JSText),
      KeepsExactly U msg query := by
  intro hall
  have hkeeps := hall asciiLetters lowercases_ascii fromBob (js "from:bob")
  have htokens : tokenizeLocalQuery asciiLetters (js "from:bob") = [⟨js "from:", js "bob"⟩] := by
    decide +kernel
  have hsat : ∀ t ∈ tokenizeLocalQuery asciiLetters (js "from:bob"), Satisfies asciiLetters fromBob t := by
    intro t ht
    rw [htokens, List.mem_singleton] at ht
    rw [ht]
    exact ⟨_, List.mem_singleton_self _, .inr (by decide +kernel)⟩
  exact absurd (hkeeps.2 hsat) (by decide +kernel)

end E2Mail.Frontend.Preview
