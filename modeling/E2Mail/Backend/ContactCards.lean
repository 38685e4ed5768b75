import E2Mail.Lib.Separator
import E2Mail.Backend.ContactFiles

/-!
# Contacts on cards

The address book is exported as vCard, and an import reads such a file. The export writes some
characters as words; the import takes back all of them in the name that is shown, most of them in
the note, and none in the other names.

* `exportVCF`, `parseVCard` — the two ways.
* `parseVCard_exportVCF` — which contacts come back.
-/

namespace E2Mail.Backend.AddressBook

open Lib Lib.Csv Lib.Text Lib.Escapes

-- a bounded quantifier is decided over its list or option, not over all characters
attribute [local instance (1100)] List.decidableBAll Option.decidableForallMem

/-! ## Writing -/

/-- `escapeVCard`. -/
def escapeVCard (s : Text) : Text :=
  let r := replaceAll ['\\'] ['\\', '\\'] s
  let r := replaceAll ['\r', '\n'] ['\\', 'n'] r
  let r := replaceAll ['\n'] ['\\', 'n'] r
  let r := replaceAll [';'] ['\\', ';'] r
  replaceAll [','] ['\\', ','] r

/-- The lines of a card between its first and its last. -/
def cardLines (c : Columns String) : List Text :=
  let fn := if c.displayName = "" then c.email else c.displayName
  ["VERSION:3.0".toList, "FN:".toList ++ escapeVCard fn.toList,
    "N:".toList ++ escapeVCard c.familyName.toList ++ [';'] ++ escapeVCard c.givenName.toList ++ ";;;".toList,
    "EMAIL;TYPE=INTERNET:".toList ++ c.email.toList] ++
  if c.note = "" then [] else ["NOTE:".toList ++ escapeVCard c.note.toList]

def beginCard : Text := "BEGIN:VCARD".toList

/-- A card, without what it begins with. -/
def cardBody (c : Columns String) : Text :=
  "\r\n".toList ++ (cardLines c).flatMap (· ++ "\r\n".toList) ++ "END:VCARD\r\n".toList

/-- `Export`, as vCard. -/
def exportVCF (l : List Contact) : Text := l.flatMap fun c => beginCard ++ cardBody c.columns

/-! ## Reading -/

/-- The fields of a card, as far as they have been read. -/
structure Card where
  email : Text
  fn : Text
  n : Text
  note : Text
  deriving DecidableEq

section Parse

variable (P : Params)

def upperText (s : Text) : Text := s.map P.toUpper

/-- The line starts with the word, whatever the case. -/
def startsWith (word line : Text) : Bool := word.isPrefixOf (upperText P line)

def unescapeFN (s : Text) : Text :=
  let fn := replaceAll ['\\', ','] [','] s
  let fn := replaceAll ['\\', ';'] [';'] fn
  let fn := replaceAll ['\\', 'n'] ['\n'] fn
  replaceAll ['\\', '\\'] ['\\'] fn

def unescapeNote (s : Text) : Text :=
  let note := replaceAll ['\\', 'n'] ['\n'] s
  let note := replaceAll ['\\', ','] [','] note
  replaceAll ['\\', '\\'] ['\\'] note

/-- A line of a card. -/
def Card.read (card : Card) (line : Text) : Card :=
  let line := trimText (trimSuffix ['\r'] line)
  if line = [] ∨ startsWith P "BEGIN:".toList line ∨ startsWith P "END:".toList line ∨
      startsWith P "VERSION:".toList line then card
  else if startsWith P "EMAIL".toList line then
    match line.dropWhile (· ≠ ':') with
    | [] => card
    | _ :: email => { card with email := (trimText email).takeWhile (· ≠ ',') }
  else if startsWith P "FN:".toList line then { card with fn := unescapeFN (trimText (line.drop 3)) }
  else if startsWith P "N:".toList line then { card with n := trimText (line.drop 2) }
  else if startsWith P "NOTE:".toList line then { card with note := unescapeNote (trimText (line.drop 5)) }
  else card

/-- The item of a card, if it has an address. -/
def Card.item (card : Card) : Option ImpItem :=
  if card.email = [] then none
  else
    let email := lowerText P (trimText card.email)
    let parts := card.n.splitOn ';'
    some
      { email := .ofList email
        displayName := .ofList (if card.fn = [] then email else card.fn)
        givenName := .ofList ((parts[1]?).elim [] trimText)
        familyName := .ofList ((parts[0]?).elim [] trimText)
        note := .ofList card.note }

/-- What is read between two beginnings. -/
def blockItem (block : Text) : Option ImpItem :=
  if trimText block = [] then none
  else Card.item P ((block.splitOn '\n').foldl (Card.read P) ⟨[], [], [], []⟩)

/-- `parseVCard`. -/
def parseVCard (data : Text) : List ImpItem := (cutAll beginCard data).filterMap (blockItem P)

end Parse

/-! ## Words -/

section Words

variable {s : Text}

/-- How a character is written. -/
def cardWord (c : Char) : Text :=
  if c = '\\' then ['\\', '\\'] else if c = '\n' then ['\\', 'n'] else if c = ';' then ['\\', ';']
  else if c = ',' then ['\\', ','] else [c]

/-- A text without line breaks of other systems is written character by character. -/
theorem escapeVCard_eq (h : ¬['\r', '\n'] <:+: s) : escapeVCard s = s.flatMap cardWord := by
  have hspells : Spells ['\r', '\n'] fun c => if c = '\\' then ['\\', '\\'] else [c] := by
    intro c
    by_cases hc : c = '\\'
    · refine .inr ?_
      simp [hc]
    · exact .inl (if_neg hc)
  have hkeep : replaceAll ['\r', '\n'] ['\\', 'n']
      (s.flatMap fun c => if c = '\\' then ['\\', '\\'] else [c]) =
      s.flatMap fun c => if c = '\\' then ['\\', '\\'] else [c] :=
    replaceAll_eq_self fun hin => h (mem_of_spelled hspells (List.cons_ne_nil _ _) hin)
  rw [escapeVCard, replaceAll_singleton]
  simp only [hkeep, replaceAll_singleton, List.flatMap_assoc]
  refine List.flatMap_congr fun c _ => ?_
  rw [cardWord]
  by_cases h₁ : c = '\\'
  · subst h₁
    rfl
  by_cases h₂ : c = '\n'
  · subst h₂
    rfl
  by_cases h₃ : c = ';'
  · subst h₃
    rfl
  by_cases h₄ : c = ','
  · subst h₄
    rfl
  simp [h₁, h₂, h₃, h₄]

theorem cardWord_cases (c : Char) :
    c = '\\' ∧ cardWord c = ['\\', '\\'] ∨ c = '\n' ∧ cardWord c = ['\\', 'n'] ∨
      c = ';' ∧ cardWord c = ['\\', ';'] ∨ c = ',' ∧ cardWord c = ['\\', ','] ∨
        c ≠ '\\' ∧ c ≠ '\n' ∧ c ≠ ';' ∧ c ≠ ',' ∧ cardWord c = [c] := by
  by_cases h₁ : c = '\\'
  · subst h₁
    exact .inl ⟨rfl, rfl⟩
  by_cases h₂ : c = '\n'
  · subst h₂
    exact .inr (.inl ⟨rfl, rfl⟩)
  by_cases h₃ : c = ';'
  · subst h₃
    exact .inr (.inr (.inl ⟨rfl, rfl⟩))
  by_cases h₄ : c = ','
  · subst h₄
    exact .inr (.inr (.inr (.inl ⟨rfl, rfl⟩)))
  refine .inr (.inr (.inr (.inr ⟨h₁, h₂, h₃, h₄, ?_⟩)))
  rw [cardWord, if_neg h₁, if_neg h₂, if_neg h₃, if_neg h₄]

theorem spells_cardWord : Spells beginCard cardWord := by
  intro c
  rcases cardWord_cases c with ⟨-, hw⟩ | ⟨-, hw⟩ | ⟨-, hw⟩ | ⟨-, hw⟩ | ⟨-, -, -, -, hw⟩
  · exact .inr (hw ▸ ⟨List.cons_ne_nil _ _, by decide⟩)
  · exact .inr (hw ▸ ⟨List.cons_ne_nil _ _, by decide⟩)
  · exact .inr (hw ▸ ⟨List.cons_ne_nil _ _, by decide⟩)
  · exact .inr (hw ▸ ⟨List.cons_ne_nil _ _, by decide⟩)
  · exact .inl hw

/-- The character that a word stands for. -/
theorem eq_of_cardWord {c y : Char} (h : cardWord c = ['\\', y]) : c = if y = 'n' then '\n' else y := by
  rcases cardWord_cases c with ⟨rfl, hw⟩ | ⟨rfl, hw⟩ | ⟨rfl, hw⟩ | ⟨rfl, hw⟩ | ⟨-, -, -, -, hw⟩ <;> rw [hw] at h
  · obtain rfl : '\\' = y := by simpa using h
    rfl
  · obtain rfl : 'n' = y := by simpa using h
    rfl
  · obtain rfl : ';' = y := by simpa using h
    rfl
  · obtain rfl : ',' = y := by simpa using h
    rfl
  · cases h

/-- Some of the characters are written as they are. -/
def wordsBut (plain : List Char) (c : Char) : Text := if plain.contains c then [c] else cardWord c

theorem wordsBut_of_mem {plain : List Char} {c : Char} (h : c ∈ plain) : wordsBut plain c = [c] :=
  if_pos (List.contains_iff_mem.mpr h)

theorem wordsBut_of_not_mem {plain : List Char} {c : Char} (h : c ∉ plain) : wordsBut plain c = cardWord c :=
  if_neg (mt List.contains_iff_mem.mp h)

/-- What a text starts with when it is written. -/
theorem head_wordsBut {plain : List Char} {t : Text} {y : Char}
    (h : (t.flatMap (wordsBut plain)).head? = some y)
    (hy : y ≠ '\\') : t.head? = some y ∧ (y ∈ plain ∨ cardWord y = [y]) := by
  cases t with
  | nil => cases h
  | cons d t =>
    rw [List.flatMap_cons] at h
    by_cases hd : d ∈ plain
    · rw [wordsBut_of_mem hd] at h
      obtain rfl : d = y := by simpa using h
      exact ⟨rfl, .inl hd⟩
    · rw [wordsBut_of_not_mem hd] at h
      rcases cardWord_cases d with ⟨-, hw⟩ | ⟨-, hw⟩ | ⟨-, hw⟩ | ⟨-, hw⟩ | ⟨-, -, -, -, hw⟩ <;>
        rw [hw] at h <;> obtain rfl := Option.some.inj h
      · exact absurd rfl hy
      · exact absurd rfl hy
      · exact absurd rfl hy
      · exact absurd rfl hy
      · exact ⟨rfl, .inr hw⟩

/-- The words of one character are taken back. -/
theorem replaceAll_wordsBut {plain : List Char} {x y : Char} (hx : cardWord x = ['\\', y])
    (hplain : x ∉ plain)
    (hback : '\\' ∉ plain)
    (hhead : x ≠ '\\' → ∀ t, '\\' :: t <:+ s → (t.flatMap (wordsBut plain)).head? ≠ some y) :
    replaceAll ['\\', y] [x] (s.flatMap (wordsBut plain)) = s.flatMap (wordsBut (x :: plain)) := by
  refine replaceAll_words fun c t hct => ?_
  by_cases hc : c = x
  · subst hc
    exact .inl ⟨(wordsBut_of_not_mem hplain).trans hx, wordsBut_of_mem List.mem_cons_self⟩
  by_cases hin : c ∈ plain
  · refine .inr ⟨?_, .inr ⟨c, fun heq => hback (heq ▸ hin), wordsBut_of_mem hin⟩⟩
    rw [wordsBut_of_mem hin, wordsBut_of_mem (List.mem_cons_of_mem x hin)]
  have hsame : wordsBut (x :: plain) c = wordsBut plain c := by
    rw [wordsBut_of_not_mem hin, wordsBut_of_not_mem (not_or.mpr ⟨hc, hin⟩ ∘ List.mem_cons.mp)]
  refine .inr ⟨hsame, ?_⟩
  rw [wordsBut_of_not_mem hin]
  have hne : ∀ z, cardWord c = ['\\', z] → z ≠ y := fun z hz heq =>
    hc ((eq_of_cardWord (heq ▸ hz)).trans (eq_of_cardWord hx).symm)
  rcases cardWord_cases c with ⟨rfl, hw⟩ | ⟨rfl, hw⟩ | ⟨rfl, hw⟩ | ⟨rfl, hw⟩ | ⟨hb, -, -, -, hw⟩
  · exact .inl ⟨'\\', hne _ hw, hw, fun _ => hhead (Ne.symm hc) t hct⟩
  · exact .inl ⟨'n', hne _ hw, hw, fun h => absurd h (by decide)⟩
  · exact .inl ⟨';', hne _ hw, hw, fun h => absurd h (by decide)⟩
  · exact .inl ⟨',', hne _ hw, hw, fun h => absurd h (by decide)⟩
  · exact .inr ⟨c, hb, hw⟩

/-- A separator that is not plain yet starts no word. -/
theorem head_ne_separator {plain : List Char} {x : Char} (hx : cardWord x = ['\\', x]) (hplain : x ∉ plain)
    (hne : x ≠ '\\') (t : Text) : (t.flatMap (wordsBut plain)).head? ≠ some x := by
  intro h
  obtain ⟨-, hin | hw⟩ := head_wordsBut h hne
  · exact hplain hin
  · rw [hx] at hw
    cases hw

/-- The letter of a line break starts a word where it stands in the text. -/
theorem head_ne_letter {plain : List Char} (h : ¬['\\', 'n'] <:+: s) (t : Text) (ht : '\\' :: t <:+ s) :
    (t.flatMap (wordsBut plain)).head? ≠ some 'n' := by
  intro hhead
  obtain ⟨hn, -⟩ := head_wordsBut hhead (by decide)
  obtain ⟨t, rfl⟩ : ∃ t', t = 'n' :: t' := by
    cases t with
    | nil => cases hn
    | cons d t => exact ⟨t, by rw [Option.some.inj hn]⟩
  exact h ((List.prefix_append ['\\', 'n'] t).isInfix.trans ht.isInfix)

theorem flatMap_wordsBut_eq_self {plain : List Char} (h : ∀ c ∈ s, c ∈ plain ∨ cardWord c = [c]) :
    s.flatMap (wordsBut plain) = s := by
  have hsingle : s.flatMap (wordsBut plain) = s.flatMap fun c => [c] := by
    refine List.flatMap_congr fun c hc => ?_
    by_cases hin : c ∈ plain
    · exact wordsBut_of_mem hin
    · rw [wordsBut_of_not_mem hin, (h c hc).resolve_left hin]
  rw [hsingle, List.flatMap_singleton']

theorem mem_or_plain (c : Char) : c ∈ ['\\', '\n', ';', ','] ∨ cardWord c = [c] := by
  rcases cardWord_cases c with ⟨rfl, -⟩ | ⟨rfl, -⟩ | ⟨rfl, -⟩ | ⟨rfl, -⟩ | ⟨-, -, -, -, hw⟩
  · exact .inl (by decide)
  · exact .inl (by decide)
  · exact .inl (by decide)
  · exact .inl (by decide)
  · exact .inr hw

/-- **The name comes back.** -/
theorem unescapeFN_eq (h : ¬['\\', 'n'] <:+: s) : unescapeFN (s.flatMap cardWord) = s := by
  have hstart : s.flatMap cardWord = s.flatMap (wordsBut []) := rfl
  rw [unescapeFN, hstart]
  rw [replaceAll_wordsBut (x := ',') rfl (by decide) (by decide) fun _ t _ =>
      head_ne_separator rfl (by decide) (by decide) t,
    replaceAll_wordsBut (x := ';') rfl (by decide) (by decide) fun _ t _ =>
      head_ne_separator rfl (by decide) (by decide) t,
    replaceAll_wordsBut (x := '\n') rfl (by decide) (by decide) fun _ => head_ne_letter h,
    replaceAll_wordsBut (x := '\\') rfl (by decide) (by decide) fun hne => absurd rfl hne]
  exact flatMap_wordsBut_eq_self fun c _ => mem_or_plain c

/-- **The note comes back**, without semicolons. -/
theorem unescapeNote_eq (h : ¬['\\', 'n'] <:+: s) (hsemi : ';' ∉ s) :
    unescapeNote (s.flatMap cardWord) = s := by
  have hstart : s.flatMap cardWord = s.flatMap (wordsBut []) := rfl
  rw [unescapeNote, hstart]
  rw [replaceAll_wordsBut (x := '\n') rfl (by decide) (by decide) fun _ => head_ne_letter h,
    replaceAll_wordsBut (x := ',') rfl (by decide) (by decide) fun _ t _ =>
      head_ne_separator rfl (by decide) (by decide) t,
    replaceAll_wordsBut (x := '\\') rfl (by decide) (by decide) fun hne => absurd rfl hne]
  refine flatMap_wordsBut_eq_self fun c hc => (mem_or_plain c).imp_left fun hin => ?_
  have hne : c ≠ ';' := fun heq => hsemi (heq ▸ hc)
  simpa [hne, or_comm, or_assoc, or_left_comm] using hin

end Words

/-! ## Lines -/

section Lines

variable {P : Params} {s e : Text} {card : Card}

/-- Letters in upper case stay, and so does the colon. -/
def KeepsUpper (P : Params) : Prop := ∀ c : Char, c.isUpper = true ∨ c = ':' → P.toUpper c = c

theorem startsWith_append (hU : KeepsUpper P) (word : Text) (hword : ∀ c ∈ word, c.isUpper = true ∨ c = ':')
    (other s : Text) : startsWith P other (word ++ s) = other.isPrefixOf (word ++ upperText P s) := by
  have hsame : word.map P.toUpper = word := by
    conv_rhs => rw [← List.map_id word]
    exact List.map_congr_left fun c hc => hU c (hword c hc)
  rw [startsWith, upperText, List.map_append, hsame]
  rfl

/-- A line is read without its carriage return. -/
theorem trim_line {c : Char} (word : Text) (hc : isSpace c = false)
    (hlast : ∀ d ∈ (c :: word ++ e).getLast?, isSpace d = false) :
    trimText (trimSuffix ['\r'] (c :: word ++ e ++ ['\r'])) = c :: word ++ e := by
  rw [trimSuffix_append]
  refine trimBy_eq_self_iff.mpr ⟨fun d hd => ?_, hlast⟩
  obtain rfl : c = d := by simpa using hd
  exact hc

/-- What stands at the end of a line is its text, if there is one. -/
theorem last_line {word : Text} (hword : ∀ d ∈ word.getLast?, isSpace d = false) (he : trimText e = e) :
    ∀ d ∈ (word ++ e).getLast?, isSpace d = false := by
  intro d hd
  rw [List.getLast?_append] at hd
  cases hlast : e.getLast? with
  | none =>
    rw [hlast] at hd
    exact hword d hd
  | some d' =>
    rw [hlast] at hd
    obtain rfl : d' = d := by simpa using hd
    exact (trimBy_eq_self_iff.mp he).2 d' hlast

theorem read_blank {line : Text} (h : trimText (trimSuffix ['\r'] line) = []) :
    Card.read P card line = card := by
  rw [Card.read, h]
  exact if_pos (.inl rfl)

theorem read_version (hU : KeepsUpper P) : Card.read P card ("VERSION:3.0".toList ++ ['\r']) = card := by
  have hline : trimText (trimSuffix ['\r'] ("VERSION:3.0".toList ++ ['\r'])) =
    "VERSION:".toList ++ "3.0".toList := by decide
  have hstart : startsWith P "VERSION:".toList ("VERSION:".toList ++ "3.0".toList) = true := by
    rw [startsWith_append hU _ (by decide)]
    rfl
  rw [Card.read, hline]
  exact if_pos (.inr (.inr (.inr hstart)))

theorem read_end (hU : KeepsUpper P) : Card.read P card ("END:VCARD".toList ++ ['\r']) = card := by
  have hline : trimText (trimSuffix ['\r'] ("END:VCARD".toList ++ ['\r'])) =
    "END:".toList ++ "VCARD".toList := by decide
  have hstart : startsWith P "END:".toList ("END:".toList ++ "VCARD".toList) = true := by
    rw [startsWith_append hU _ (by decide)]
    rfl
  rw [Card.read, hline]
  exact if_pos (.inr (.inr (.inl hstart)))

theorem read_fn (hU : KeepsUpper P) (he : trimText e = e) :
    Card.read P card ("FN:".toList ++ e ++ ['\r']) = { card with fn := unescapeFN e } := by
  have hline : trimText (trimSuffix ['\r'] ("FN:".toList ++ e ++ ['\r'])) = "FN:".toList ++ e :=
    trim_line _ (by decide) (last_line (by decide) he)
  have hstart := startsWith_append hU "FN:".toList (by decide)
  have hdrop : ("FN:".toList ++ e).drop 3 = e := rfl
  rw [Card.read, hline]
  simp only [hstart, hdrop, he]
  rfl

theorem read_n (hU : KeepsUpper P) (he : trimText e = e) :
    Card.read P card ("N:".toList ++ e ++ ['\r']) = { card with n := e } := by
  have hline : trimText (trimSuffix ['\r'] ("N:".toList ++ e ++ ['\r'])) = "N:".toList ++ e :=
    trim_line _ (by decide) (last_line (by decide) he)
  have hstart := startsWith_append hU "N:".toList (by decide)
  have hdrop : ("N:".toList ++ e).drop 2 = e := rfl
  rw [Card.read, hline]
  simp only [hstart, hdrop, he]
  rfl

theorem read_note (hU : KeepsUpper P) (he : trimText e = e) :
    Card.read P card ("NOTE:".toList ++ e ++ ['\r']) = { card with note := unescapeNote e } := by
  have hline : trimText (trimSuffix ['\r'] ("NOTE:".toList ++ e ++ ['\r'])) = "NOTE:".toList ++ e :=
    trim_line _ (by decide) (last_line (by decide) he)
  have hstart := startsWith_append hU "NOTE:".toList (by decide)
  have hdrop : ("NOTE:".toList ++ e).drop 5 = e := rfl
  rw [Card.read, hline]
  simp only [hstart, hdrop, he]
  rfl

theorem read_email (hU : KeepsUpper P) (he : trimText e = e) (hcomma : ',' ∉ e) :
    Card.read P card ("EMAIL;TYPE=INTERNET:".toList ++ e ++ ['\r']) = { card with email := e } := by
  have hline : trimText (trimSuffix ['\r'] ("EMAIL;TYPE=INTERNET:".toList ++ e ++ ['\r'])) =
      "EMAIL".toList ++ (";TYPE=INTERNET:".toList ++ e) :=
    trim_line "MAIL;TYPE=INTERNET:".toList (by decide) (last_line (by decide) he)
  have hstart := startsWith_append hU "EMAIL".toList (by decide)
  have hcolon : ("EMAIL".toList ++ (";TYPE=INTERNET:".toList ++ e)).dropWhile (· ≠ ':') = ':' :: e := rfl
  have hwhole : e.takeWhile (· ≠ ',') = e :=
    List.takeWhile_eq_self_iff.mpr fun c hc => decide_eq_true fun heq => hcomma (heq ▸ hc)
  rw [Card.read, hline]
  simp only [hstart, hcolon, he, hwhole]
  rfl

end Lines

section Written

variable {s : Text}

/-- A text that comes back from a card. -/
structure Written (s : Text) : Prop where
  lines : ¬['\r', '\n'] <:+: s
  words : ¬['\\', 'n'] <:+: s
  head : ∀ c ∈ s.head?, isSpace c = true → c = '\n'
  last : ∀ c ∈ s.getLast?, isSpace c = true → c = '\n'

/-- What a text that comes back is written as has no spaces at its ends. -/
theorem Written.trimText_words (h : Written s) : trimText (s.flatMap cardWord) = s.flatMap cardWord := by
  have hspace : ∀ d ∈ ['\\', 'n', ';', ','], isSpace d = false := by decide
  refine trimBy_eq_self_iff.mpr ⟨fun d hd => ?_, fun d hd => ?_⟩
  · cases s with
    | nil => cases hd
    | cons c s =>
      rw [List.flatMap_cons] at hd
      rcases cardWord_cases c with ⟨-, hw⟩ | ⟨-, hw⟩ | ⟨-, hw⟩ | ⟨-, hw⟩ | ⟨-, hline, -, -, hw⟩ <;>
        rw [hw] at hd <;> obtain rfl := Option.some.inj hd
      · rfl
      · rfl
      · rfl
      · rfl
      · exact eq_false_of_ne_true fun hsp => hline (h.head c rfl hsp)
  · rcases List.eq_nil_or_concat s with rfl | ⟨t, c, rfl⟩
    · cases hd
    · rw [List.concat_eq_append, List.flatMap_append, List.flatMap_singleton] at hd
      have hc : (t.concat c).getLast? = some c := by simp
      rcases cardWord_cases c with ⟨-, hw⟩ | ⟨-, hw⟩ | ⟨-, hw⟩ | ⟨-, hw⟩ | ⟨-, hline, -, -, hw⟩ <;>
        rw [hw, List.getLast?_append] at hd <;> obtain rfl := Option.some.inj hd
      · rfl
      · rfl
      · rfl
      · rfl
      · exact eq_false_of_ne_true fun hsp => hline (h.last c hc hsp)

end Written

/-! ## Cards -/

section Cards

variable {P : Params} {c : Columns String} {s : Text}

/-- A contact that comes back from its card. -/
structure CardSafe (P : Params) (c : Columns String) : Prop where
  apart : ∀ s ∈ [c.email, c.displayName, c.familyName, c.givenName, c.note], ¬beginCard <:+: s.toList
  address : c.email ≠ "" ∧ trimText c.email.toList = c.email.toList ∧
    lowerText P c.email.toList = c.email.toList
  email : '\n' ∉ c.email.toList ∧ ',' ∉ c.email.toList
  shown : c.displayName ≠ "" ∧ Written c.displayName.toList
  names : ∀ s ∈ [c.familyName, c.givenName], (∀ d ∈ s.toList, cardWord d = [d]) ∧ trimText s.toList = s.toList
  note : Written c.note.toList ∧ ';' ∉ c.note.toList

theorem escapeVCard_plain (h : ∀ d ∈ s, cardWord d = [d]) : escapeVCard s = s := by
  have hlines : ¬['\r', '\n'] <:+: s := fun hin => by
    have hword := h '\n' (hin.subset (by decide))
    cases hword
  rw [escapeVCard_eq hlines]
  conv_rhs => rw [← List.flatMap_singleton' s]
  exact List.flatMap_congr h

theorem not_mem_words (s : Text) : '\n' ∉ s.flatMap cardWord := by
  intro h
  obtain ⟨c, -, hc⟩ := List.mem_flatMap.mp h
  rcases cardWord_cases c with ⟨-, hw⟩ | ⟨-, hw⟩ | ⟨-, hw⟩ | ⟨-, hw⟩ | ⟨-, hline, -, -, hw⟩ <;> rw [hw] at hc
  · exact absurd hc (by decide)
  · exact absurd hc (by decide)
  · exact absurd hc (by decide)
  · exact absurd hc (by decide)
  · exact hline (List.mem_singleton.mp hc).symm

/-- The text of the names. -/
def names (c : Columns String) : Text :=
  [';'].intercalate [c.familyName.toList, c.givenName.toList, [], [], []]

/-- The lines of a card that comes back. -/
theorem cardLines_eq (h : CardSafe P c) : cardLines c =
    ["VERSION:3.0".toList, "FN:".toList ++ c.displayName.toList.flatMap cardWord, "N:".toList ++ names c,
      "EMAIL;TYPE=INTERNET:".toList ++ c.email.toList] ++
    if c.note = "" then [] else ["NOTE:".toList ++ c.note.toList.flatMap cardWord] := by
  obtain ⟨⟨hfamily, -⟩, hgiven, -⟩ := by simpa only [List.forall_mem_cons] using h.names
  rw [cardLines, if_neg h.shown.1, escapeVCard_eq h.shown.2.lines, escapeVCard_plain hfamily,
    escapeVCard_plain hgiven.1, escapeVCard_eq h.note.1.lines]
  simp [names, List.intercalate]

/-- The lines of a card, with the carriage returns. -/
def cardPieces (c : Columns String) : List Text :=
  ['\r'] :: (cardLines c).map (· ++ ['\r']) ++ ["END:VCARD".toList ++ ['\r']]

theorem cardBody_eq (c : Columns String) : cardBody c = ['\n'].intercalate (cardPieces c ++ [[]]) := by
  rw [Separator.intercalate_middle, cardBody, cardPieces, List.flatMap_append, List.flatMap_cons,
    List.flatMap_map]
  simp

theorem not_mem_cardPieces (h : CardSafe P c) : ∀ piece ∈ cardPieces c, '\n' ∉ piece := by
  have hnames : '\n' ∉ names c := by
    intro hin
    obtain hc | ⟨piece, hpiece, hc⟩ := Separator.mem_intercalate hin
    · exact absurd hc (by decide)
    · have hplain := h.names
      have hno : ∀ s ∈ [c.familyName, c.givenName], '\n' ∉ s.toList := fun s hs hin => by
        have hword := (hplain s hs).1 '\n' hin
        cases hword
      simp only [List.mem_cons, List.not_mem_nil, or_false] at hpiece
      rcases hpiece with rfl | rfl | rfl | rfl | rfl
      · exact hno _ (by simp) hc
      · exact hno _ (by simp) hc
      · cases hc
      · cases hc
      · cases hc
  have hlines : ∀ line ∈ cardLines c, '\n' ∉ line := by
    rw [cardLines_eq h]
    intro line hline
    rcases List.mem_append.mp hline with hline | hline
    · simp only [List.mem_cons, List.not_mem_nil, or_false] at hline
      rcases hline with rfl | rfl | rfl | rfl
      · decide
      · exact mt List.mem_append.mp (not_or.mpr ⟨by decide, not_mem_words _⟩)
      · exact mt List.mem_append.mp (not_or.mpr ⟨by decide, hnames⟩)
      · exact mt List.mem_append.mp (not_or.mpr ⟨by decide, h.email.1⟩)
    · split at hline
      · cases hline
      · obtain rfl := List.mem_singleton.mp hline
        exact mt List.mem_append.mp (not_or.mpr ⟨by decide, not_mem_words _⟩)
  intro piece hpiece
  rw [cardPieces, List.cons_append, List.mem_cons, List.mem_append, List.mem_map,
    List.mem_singleton] at hpiece
  rcases hpiece with rfl | ⟨line, hline, rfl⟩ | rfl
  · decide
  · exact mt List.mem_append.mp (not_or.mpr ⟨hlines line hline, by decide⟩)
  · decide

theorem splitOn_cardBody (h : CardSafe P c) : (cardBody c).splitOn '\n' = cardPieces c ++ [[]] := by
  rw [cardBody_eq]
  refine Separator.splitOn_intercalate_iff.mpr ⟨by simp, fun piece hpiece => ?_⟩
  rcases List.mem_append.mp hpiece with hpiece | hpiece
  · exact not_mem_cardPieces h piece hpiece
  · rw [List.mem_singleton.mp hpiece]
    exact List.not_mem_nil

theorem trimText_names (h : CardSafe P c) : trimText (names c) = names c := by
  have hsplit : names c = c.familyName.toList ++ ';' :: (c.givenName.toList ++ [';', ';', ';']) := by
    simp [names, List.intercalate]
  have htrim := (h.names c.familyName List.mem_cons_self).2
  rw [hsplit]
  refine trimBy_eq_self_iff.mpr ⟨fun d hd => ?_, fun d hd => ?_⟩
  · cases hfam : c.familyName.toList with
    | nil =>
      rw [hfam] at hd
      obtain rfl := Option.some.inj hd
      decide
    | cons e s =>
      rw [hfam] at hd htrim
      obtain rfl := Option.some.inj hd
      exact (trimBy_eq_self_iff.mp htrim).1 _ rfl
  · obtain rfl : ';' = d := by simpa [List.getLast?_append, List.getLast?_cons] using hd
    decide

/-- **What is read from a card.** -/
theorem foldl_read (hU : KeepsUpper P) (h : CardSafe P c) :
    (cardPieces c ++ [[]]).foldl (Card.read P) ⟨[], [], [], []⟩ =
      ⟨c.email.toList, c.displayName.toList, names c, c.note.toList⟩ := by
  have hshown := h.shown.2
  have hnote := h.note
  have hblank : ∀ card, Card.read P card ['\r'] = card := fun card => read_blank (by decide)
  have hend : ∀ card, Card.read P card [] = card := fun card => read_blank (by decide)
  rw [cardPieces, cardLines_eq h]
  simp only [List.map_cons, List.cons_append, List.nil_append, List.foldl_cons, List.foldl_append,
    List.foldl_nil, hblank, hend, read_version hU, read_end hU, read_fn hU hshown.trimText_words,
    unescapeFN_eq hshown.words, read_n hU (trimText_names h), read_email hU h.address.2.1 h.email.2]
  by_cases hempty : c.note = ""
  · rw [if_pos hempty, hempty]
    rfl
  · rw [if_neg hempty]
    simp only [List.map_cons, List.map_nil, List.foldl_cons, List.foldl_nil,
      read_note hU hnote.1.trimText_words, unescapeNote_eq hnote.1.words hnote.2]

/-- **A card comes back** as the contact that it was written from. -/
theorem blockItem_cardBody (hU : KeepsUpper P) (c : Contact) (h : CardSafe P c.columns) :
    blockItem P (cardBody c.columns) = some c.toItem := by
  have hblock : trimText (cardBody c.columns) ≠ [] := by
    intro hnil
    have hin : 'E' ∈ cardBody c.columns := by
      refine List.mem_append_right _ ?_
      decide
    have hall := eq_true_of_trimBy_eq_nil hnil 'E' hin
    cases hall
  have hparts : (names c.columns).splitOn ';' =
      [c.columns.familyName.toList, c.columns.givenName.toList, [], [], []] := by
    refine Separator.splitOn_intercalate_iff.mpr ⟨List.cons_ne_nil _ _, fun piece hpiece hin => ?_⟩
    have hno : ∀ s ∈ [c.columns.familyName, c.columns.givenName], ';' ∉ s.toList := fun s hs hin => by
      have hword := (h.names s hs).1 ';' hin
      cases hword
    simp only [List.mem_cons, List.not_mem_nil, or_false] at hpiece
    rcases hpiece with rfl | rfl | rfl | rfl | rfl
    · exact hno _ (by simp) hin
    · exact hno _ (by simp) hin
    · cases hin
    · cases hin
    · cases hin
  have hemail : c.columns.email.toList ≠ [] := fun hnil => h.address.1 (String.toList_inj.mp hnil)
  have hshown : c.columns.displayName.toList ≠ [] := fun hnil => h.shown.1 (String.toList_inj.mp hnil)
  obtain ⟨⟨-, hfamily⟩, ⟨-, hgiven⟩, -⟩ := by simpa only [List.forall_mem_cons] using h.names
  rw [blockItem, if_neg hblock, splitOn_cardBody h, foldl_read hU h, Card.item, if_neg hemail]
  simp only [hparts, h.address.2.1, h.address.2.2, if_neg hshown, List.getElem?_cons_zero,
    List.getElem?_cons_succ, Option.elim_some, hfamily, hgiven, String.ofList_toList]
  rfl

/-- A card that comes back has no second beginning. -/
theorem not_infix_cardBody (h : CardSafe P c) : ¬beginCard <:+: cardBody c := by
  have hbreak : '\r' ∉ beginCard ∧ '\n' ∉ beginCard := by decide
  have hwords : ∀ s : Text, beginCard <:+: s.flatMap cardWord → beginCard <:+: s := fun s =>
    mem_of_spelled spells_cardWord (by decide)
  have hno : ∀ {s : Text}, 'B' ∉ s → ¬beginCard <:+: s := fun hs hin => hs (hin.subset List.mem_cons_self)
  have hdrop : ∀ {word s : Text}, 'B' ∉ word → beginCard <:+: word ++ s → beginCard <:+: s := drop_of_absent
  obtain ⟨hemail, hshown, hfamily, hgiven, hnote, -⟩ := by simpa only [List.forall_mem_cons] using h.apart
  have hnames : ¬beginCard <:+: names c := by
    intro hin
    have hsplit : names c = c.familyName.toList ++ ';' :: (c.givenName.toList ++ [';', ';', ';']) := by
      simp [names, List.intercalate]
    rw [hsplit] at hin
    rcases sides_of_separator (by decide) hin with hin | hin
    · exact hfamily hin
    · rcases sides_of_separator (by decide) hin with hin | hin
      · exact hgiven hin
      · exact hno (by decide) hin
  have hlines : ∀ line ∈ cardLines c, ¬beginCard <:+: line := by
    rw [cardLines_eq h]
    intro line hline
    rcases List.mem_append.mp hline with hline | hline
    · simp only [List.mem_cons, List.not_mem_nil, or_false] at hline
      rcases hline with rfl | rfl | rfl | rfl
      · exact hno (by decide)
      · exact fun hin => hshown (hwords _ (hdrop (by decide) hin))
      · exact fun hin => hnames (hdrop (by decide) hin)
      · exact fun hin => hemail (hdrop (by decide) hin)
    · split at hline
      · cases hline
      · obtain rfl := List.mem_singleton.mp hline
        exact fun hin => hnote (hwords _ (hdrop (by decide) hin))
  -- the breaks between the lines are not in it
  have hbody : ∀ lines : List Text, (∀ line ∈ lines, ¬beginCard <:+: line) →
      ¬beginCard <:+: lines.flatMap (· ++ "\r\n".toList) ++ "END:VCARD\r\n".toList := by
    intro lines
    induction lines with
    | nil => exact fun _ => hno (by decide)
    | cons line lines ih =>
      intro hall hin
      obtain ⟨hline, hall⟩ := List.forall_mem_cons.mp hall
      rw [List.flatMap_cons, List.append_assoc, List.append_assoc] at hin
      rcases sides_of_separator hbreak.1 hin with hin | hin
      · exact hline hin
      · rcases sides_of_separator (s := []) hbreak.2 hin with hin | hin
        · exact hno (by decide) hin
        · exact ih hall hin
  rw [cardBody, List.append_assoc]
  intro hin
  exact hbody _ hlines (hdrop (by decide) hin)

/-- The cards of a file. -/
theorem cutAll_exportVCF (l : List Contact) (hl : ∀ c ∈ l, CardSafe P c.columns) (h : CardSafe P c) :
    cutAll beginCard (cardBody c ++ exportVCF l) = cardBody c :: l.map fun c => cardBody c.columns := by
  induction l generalizing c with
  | nil =>
    rw [exportVCF, List.flatMap_nil, List.append_nil, cutAll_of_absent (not_infix_cardBody h)]
    rfl
  | cons d l ih =>
    obtain ⟨hd, hl⟩ := List.forall_mem_cons.mp hl
    have hfirst : 'B' ∉ "EGIN:VCARD".toList := by decide
    have hcut := cutAll_append hfirst (not_infix_cardBody h) (cardBody d.columns ++ exportVCF l)
    have hsplit : cardBody c ++ exportVCF (d :: l) =
        cardBody c ++ beginCard ++ (cardBody d.columns ++ exportVCF l) := by
      simp [exportVCF]
    rw [hsplit, List.map_cons, ← ih hl hd]
    exact hcut

/-- **An export is read as it was written** if every contact in it is safe. -/
theorem parseVCard_exportVCF (hU : KeepsUpper P) (l : List Contact) (hl : ∀ c ∈ l, CardSafe P c.columns) :
    parseVCard P (exportVCF l) = l.map Contact.toItem := by
  have hitems : ∀ c ∈ l, blockItem P (cardBody c.columns) = some c.toItem := fun c hc =>
    blockItem_cardBody hU c (hl c hc)
  have hempty : blockItem P [] = none := if_pos rfl
  rw [parseVCard]
  cases l with
  | nil =>
    have hnone : ¬beginCard <:+: [] := fun hin => absurd (List.infix_nil.mp hin) (by decide)
    rw [exportVCF, List.flatMap_nil, cutAll_of_absent hnone, List.filterMap_cons_none hempty]
    rfl
  | cons c l =>
    obtain ⟨hc, hl⟩ := List.forall_mem_cons.mp hl
    have hsplit : exportVCF (c :: l) = beginCard ++ (cardBody c.columns ++ exportVCF l) := by simp [exportVCF]
    have hbodies : cardBody c.columns :: l.map (fun c => cardBody c.columns) =
      (c :: l).map fun c => cardBody c.columns := rfl
    rw [hsplit, cutAll_self_append (by decide), cutAll_exportVCF l hl hc,
      List.filterMap_cons_none hempty, hbodies, List.filterMap_map]
    refine List.filterMap_eq_map_iff_forall_eq_some.mpr fun d hd => ?_
    rw [Function.comp_apply]
    exact hitems d hd

theorem keepsUpper_sample : KeepsUpper .sample := fun _ _ => rfl

theorem written_carla : ∀ s ∈ ["Carla, \"C\"", ""], Written s.toList := by
  have hwritten : ∀ s ∈ ["Carla, \"C\"", ""], '\r' ∉ s.toList ∧ '\\' ∉ s.toList ∧
      (∀ c ∈ s.toList.head?, isSpace c = true → c = '\n') ∧
      ∀ c ∈ s.toList.getLast?, isSpace c = true → c = '\n' := by
    decide
  intro s hs
  obtain ⟨hlines, hwords, hhead, hlast⟩ := hwritten s hs
  exact ⟨fun hin => hlines (hin.subset List.mem_cons_self),
    fun hin => hwords (hin.subset List.mem_cons_self), hhead, hlast⟩

theorem cardSafe_carla : CardSafe .sample carla.columns where
  apart s hs hin := by
    have hno : ∀ s ∈ ["c@z", "Carla, \"C\"", "Z", "Carla", ""], 'B' ∉ s.toList := by decide
    exact hno s hs (hin.subset List.mem_cons_self)
  address := ⟨by decide, by decide, rfl⟩
  email := by decide
  shown := ⟨by decide, written_carla _ (by decide)⟩
  names := by decide
  note := ⟨written_carla _ (by decide), by decide⟩

theorem parseVCard_exportVCF_carla : parseVCard .sample (exportVCF [carla]) = [carla.toItem] :=
  parseVCard_exportVCF keepsUpper_sample [carla] fun _ hc => List.mem_singleton.mp hc ▸ cardSafe_carla

end Cards

end E2Mail.Backend.AddressBook
