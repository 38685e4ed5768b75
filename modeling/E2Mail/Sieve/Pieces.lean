import E2Mail.Sieve.Generator
import E2Mail.Sieve.Syntax

/-!
# Pieces of a written script

What the pieces of text that a script is written with become: white space, punctuation,
words, tags, comments, strings and lists of strings. Each rule puts one piece in front
of text whose tokens are known.
-/

namespace E2Mail.Sieve

open Lib Lib.Text Lib.LexStep

/-- The text becomes the tokens where no word goes on after it. -/
abbrev Writes (text : Text) (ts : List Tok) : Prop := Lexes lexStep isWordChar text ts

variable {text : Text} {ts : List Tok}

/-! ## Single characters -/

theorem Writes.nil : Writes [] [] := Lexes.nil

theorem Writes.append {more : Text} {us : List Tok} (h : Writes text ts) (hmore : Writes more us)
    (hstop : Stops isWordChar more) : Writes (text ++ more) (ts ++ us) :=
  Lexes.append h hmore hstop

theorem Writes.space (h : Writes text ts) : Writes (' ' :: text) ts := by
  have hpiece : Seals lexStep [' '] [] := fun rest => Reads.of_step lexStep_shrinks rfl
  exact hpiece.append_lexes h

theorem Writes.newline (h : Writes text ts) : Writes ('\n' :: text) ts := by
  have hpiece : Seals lexStep ['\n'] [] := fun rest => Reads.of_step lexStep_shrinks rfl
  exact hpiece.append_lexes h

/-- The characters that are tokens of their own; an opening brace may be more. -/
def punctChars : List Char := ['}', '(', ')', ',', ';', '[', ']']

theorem lexStep_punct (rest : Text) :
    ∀ c ∈ punctChars, lexStep (c :: rest) = some ([.punct c], rest) := by
  simp only [punctChars, List.forall_mem_cons]
  exact ⟨rfl, rfl, rfl, rfl, rfl, rfl, rfl, by simp⟩

theorem Writes.punct {c : Char} (hc : c ∈ punctChars) (h : Writes text ts) :
    Writes (c :: text) (.punct c :: ts) := by
  have hpiece : Seals lexStep [c] [.punct c] := fun rest =>
    Reads.of_step lexStep_shrinks (lexStep_punct rest c hc)
  exact hpiece.append_lexes h

theorem takeWhile_append_of_stop {p : Char → Bool} {w : Text} (hw : w.all p = true)
    (rest : Text) (hrest : Stops p rest) : (w ++ rest).takeWhile p = w := by
  rw [List.takeWhile_append_of_pos (fun c hc => List.all_eq_true.mp hw c hc)]
  cases rest with
  | nil => simp
  | cons c rest =>
    rw [stops_cons] at hrest
    rw [List.takeWhile_cons_of_neg (by simp [hrest]), List.append_nil]

theorem dropWhile_append_of_stop {p : Char → Bool} {w : Text} (hw : w.all p = true)
    (rest : Text) (hrest : Stops p rest) : (w ++ rest).dropWhile p = rest := by
  rw [List.dropWhile_append_of_pos (fun c hc => List.all_eq_true.mp hw c hc)]
  cases rest with
  | nil => rfl
  | cons c rest =>
    rw [stops_cons] at hrest
    rw [List.dropWhile_cons_of_neg (by simp [hrest])]

/-- The text begins, after white space, with something that is not a digit. -/
def NoDigit (s : Text) : Prop :=
  ∃ white c tail, s = white ++ c :: tail ∧ white.all isWhite = true ∧ isWhite c = false ∧
    c.isDigit = false

/-- Then it is not the length of a literal that stands before the next closing brace. -/
theorem NoDigit.readLiteral {s : Text} (h : NoDigit s) (rest : Text) :
    readLiteral (s ++ rest) = none := by
  obtain ⟨white, c, tail, rfl, hwhite, hc, hdigit⟩ := h
  have hnone : isLiteralLength ((white ++ c :: tail ++ rest).takeWhile (· != '}')) = false := by
    have hopen : ∀ d ∈ white, (d != '}') = true := by
      intro d hd
      have hd' := List.all_eq_true.mp hwhite d hd
      by_contra hbrace
      simp only [bne_iff_ne, ne_eq, not_not] at hbrace
      subst hbrace
      exact absurd hd' (by decide)
    rw [List.append_assoc, List.takeWhile_append_of_pos hopen, List.cons_append]
    by_cases hbrace : c = '}'
    · subst hbrace
      have hall : white.dropWhile isWhite = [] := List.dropWhile_eq_nil_iff.mpr
        (fun d hd => List.all_eq_true.mp hwhite d hd)
      simp [isLiteralLength, hall]
    · rw [List.takeWhile_cons_of_pos (by simpa using hbrace)]
      have hstop : ∀ t : Text, Stops isWhite (c :: t) := fun t => by simpa using hc
      simp [isLiteralLength, dropWhile_append_of_stop hwhite _ (hstop _), hdigit]
  rw [E2Mail.Sieve.readLiteral]
  split
  · rfl
  · exact if_neg (by rw [hnone]; exact Bool.false_ne_true)

/-- An opening brace. -/
theorem Writes.brace (hdigit : NoDigit text) (h : Writes text ts) :
    Writes ('{' :: text) (.punct '{' :: ts) := by
  intro rest hrest
  have hstep : lexStep ('{' :: (text ++ rest)) = some ([.punct '{'], text ++ rest) := by
    have hlit := hdigit.readLiteral rest
    simp [lexStep, hlit, isWhite]
  have hpiece : Reads lexStep ['{'] [.punct '{'] (text ++ rest) :=
    Reads.of_step lexStep_shrinks hstep
  exact hpiece.append (h rest hrest)

/-! ## Words and tags -/

/-- A word in lower case. -/
def isWord : Text → Bool
  | [] => false
  | c :: s => isWordStart c && s.all isWordChar && decide (toLowerCase (c :: s) = c :: s)

theorem wordStart_range {c : Char} (hc : isWordStart c = true) :
    65 ≤ c.toNat ∧ c.toNat ≤ 122 := by
  change (decide (65 ≤ c.val ∧ c.val ≤ 90) ||
    (decide (97 ≤ c.val) && decide (c.val ≤ 122)) || c == '_') = true at hc
  simp only [Bool.or_eq_true, Bool.and_eq_true, decide_eq_true_eq, UInt32.le_iff_toNat_le,
    beq_iff_eq] at hc
  obtain ((hupper | hlower) | rfl) := hc
  · exact ⟨hupper.1, hupper.2.trans (by decide)⟩
  · exact ⟨le_trans (by decide) hlower.1, hlower.2⟩
  · decide

theorem isWhite_of_wordStart {c : Char} (hc : isWordStart c = true) : isWhite c = false := by
  have hrange := wordStart_range hc
  simp [isWhite]
  omega

theorem isDigit_of_wordStart {c : Char} (hc : isWordStart c = true) : c.isDigit = false := by
  have hrange := wordStart_range hc
  rw [Bool.eq_false_iff]
  intro hdigit
  simp only [Char.isDigit, Bool.and_eq_true, decide_eq_true_eq, ge_iff_le,
    UInt32.le_iff_toNat_le] at hdigit
  have hle : c.toNat ≤ 57 := hdigit.2
  omega

theorem lexStep_word {c : Char} {s rest : Text} (hc : isWordStart c = true)
    (hs : s.all isWordChar = true) (hrest : Stops isWordChar rest) :
    lexStep (c :: (s ++ rest)) = some ([.word (toLowerCase (c :: s))], rest) := by
  have hne : ∀ d, isWordStart d = false → c ≠ d := by
    rintro d hd rfl
    rw [hc] at hd
    cases hd
  have hwhite := isWhite_of_wordStart hc
  have hmem : c ∉ ['}', '(', ')', ',', ';', '['] := by
    simp only [List.mem_cons, not_or]
    exact ⟨hne _ rfl, hne _ rfl, hne _ rfl, hne _ rfl, hne _ rfl, hne _ rfl, by simp⟩
  simp [lexStep, hne '#' rfl, hne '/' rfl, hwhite, hne '"' rfl, hne '{' rfl, hmem, hne ']' rfl,
    hne ':' rfl, hc, takeWhile_append_of_stop hs rest hrest,
    dropWhile_append_of_stop hs rest hrest]

/-- **A word** ends where the text after it begins. -/
theorem Writes.word {w : Text} (hw : isWord w = true) (hstop : Stops isWordChar text)
    (h : Writes text ts) : Writes (w ++ text) (.word w :: ts) := by
  cases w with
  | nil => cases hw
  | cons c s =>
    simp only [isWord, Bool.and_eq_true, decide_eq_true_eq] at hw
    obtain ⟨⟨hc, hs⟩, hlower⟩ := hw
    have hpiece : Lexes lexStep isWordChar (c :: s) [.word (c :: s)] := by
      intro rest hrest
      refine Reads.of_step lexStep_shrinks ?_
      rw [List.cons_append, lexStep_word hc hs hrest, hlower]
    exact hpiece.append h hstop

/-- The name of a tag, in lower case. -/
def isTagName (w : Text) : Bool :=
  !w.isEmpty && w.all isWordChar && decide (toLowerCase w = w)

/-- **A tag**, with its colon. -/
theorem Writes.annot {w : Text} (hw : isTagName w = true) (hstop : Stops isWordChar text)
    (h : Writes text ts) : Writes (':' :: (w ++ text)) (.annot w :: ts) := by
  simp only [isTagName, Bool.and_eq_true, decide_eq_true_eq] at hw
  obtain ⟨⟨hne, hall⟩, hlower⟩ := hw
  have hpiece : Lexes lexStep isWordChar (':' :: w) [.annot w] := by
    intro rest hrest
    refine Reads.of_step lexStep_shrinks ?_
    have hne' : w.isEmpty = false := by simpa using hne
    simp [lexStep, isWhite, takeWhile_append_of_stop hall rest hrest,
      dropWhile_append_of_stop hall rest hrest, hne', hlower]
  exact hpiece.append h hstop

/-! ## Comments -/

/-- **A comment** goes to the end of the line. -/
theorem Writes.comment {line : Text} (hline : '\n' ∉ line) (h : Writes text ts) :
    Writes ('#' :: (line ++ '\n' :: text)) (.comment (trim line) :: ts) := by
  have hall : line.all (· != '\n') = true := by
    rw [List.all_eq_true]
    rintro c hc
    simp only [bne_iff_ne, ne_eq]
    rintro rfl
    exact hline hc
  have hstop : ∀ s : Text, Stops (· != '\n') ('\n' :: s) := by simp
  intro rest hrest
  have hpiece : Reads lexStep ('#' :: line) [.comment (trim line)] ('\n' :: text ++ rest) := by
    refine Reads.of_step lexStep_shrinks ?_
    simp [lexStep, takeWhile_append_of_stop hall _ (hstop _),
      dropWhile_append_of_stop hall _ (hstop _)]
  exact hpiece.append (h.newline rest hrest)

theorem trimBy_ends {p : Char → Bool} {c d : Char} {s : Text} (hc : p c = false)
    (hd : p d = false) : trimBy p (c :: (s ++ [d])) = c :: (s ++ [d]) := by
  have hrev : (c :: (s ++ [d])).reverse = d :: (s.reverse ++ [c]) := by simp
  rw [trimBy, List.dropWhile_cons_of_neg (by simp [hc]), hrev,
    List.dropWhile_cons_of_neg (by simp [hd]), ← hrev, List.reverse_reverse]

theorem trim_space (s : Text) : trim (' ' :: s) = trim s := rfl

/-! ## Strings -/

theorem replaceChar_cons (c d : Char) (new s : Text) :
    replaceChar c new (d :: s) = (if d = c then new else [d]) ++ replaceChar c new s := rfl

theorem replaceChar_append (c : Char) (new s t : Text) :
    replaceChar c new (s ++ t) = replaceChar c new s ++ replaceChar c new t :=
  List.flatMap_append

/-- Backslashes and quotes get a backslash. -/
theorem esc_cons (c : Char) (s : Text) :
    esc (c :: s) = (if c = '\\' ∨ c = '"' then ['\\', c] else [c]) ++ esc s := by
  rw [esc, replaceChar_cons, replaceChar_append, ← esc]
  congr 1
  by_cases hback : c = '\\'
  · subst hback
    rfl
  · by_cases hquote : c = '"'
    · subst hquote
      rfl
    · simp [replaceChar, hback, hquote]

/-- **What is escaped is read back**, up to the quote after it. -/
theorem readQuoted_esc (s rest : Text) : readQuoted (esc s ++ '"' :: rest) = some (s, rest) := by
  induction s with
  | nil => rfl
  | cons c s ih =>
    rw [esc_cons]
    by_cases hspecial : c = '\\' ∨ c = '"'
    · rw [if_pos hspecial]
      simp only [List.cons_append, List.nil_append, readQuoted, ih, Option.map_some]
    · rw [if_neg hspecial]
      simp only [not_or] at hspecial
      rw [List.append_assoc, List.cons_append, List.nil_append, readQuoted, ih]
      · rfl
      · intro _ _ heq
        exact absurd heq hspecial.1
      · exact hspecial.2

/-- **A string** between quotes is one token, whatever is in it. -/
theorem Writes.quote (s : Text) (h : Writes text ts) :
    Writes (quote s ++ text) (.quoted s :: ts) := by
  have hpiece : Seals lexStep (E2Mail.Sieve.quote s) [.quoted s] := by
    intro rest
    refine Reads.of_step lexStep_shrinks ?_
    have hread := readQuoted_esc s rest
    simp [E2Mail.Sieve.quote, lexStep, isWhite, hread]
  exact hpiece.append_lexes h

theorem intercalate_cons (sep first : Text) (rest : List Text) :
    List.intercalate sep (first :: rest) = first ++ rest.flatMap (sep ++ ·) := by
  induction rest generalizing first with
  | nil => simp
  | cons next rest ih => rw [List.intercalate_cons_cons, ih, List.flatMap_cons, List.append_assoc,
      List.append_assoc]

theorem writes_restItems (rest : List Text) (h : Writes text ts) :
    Writes ((rest.map quote).flatMap ([','] ++ ·) ++ text) (StrList.restTokens rest ++ ts) := by
  induction rest with
  | nil => exact h
  | cons s rest ih =>
    have hnext := (Writes.quote s ih).punct (c := ',') (by decide)
    simpa [StrList.restTokens] using hnext

/-- **A list of strings**, as `quoteListOrOne` writes it. -/
theorem Writes.strings (first : Text) (rest : List Text) (h : Writes text ts) :
    Writes (quoteListOrOne (first :: rest) ++ text) ((StrList.of first rest).tokens ++ ts) := by
  cases rest with
  | nil => exact h.quote first
  | cons next rest =>
    have hclose := h.punct (c := ']') (by decide)
    have hitems := (writes_restItems (next :: rest) hclose).quote first
    have hopen := hitems.punct (c := '[') (by decide)
    simpa [quoteListOrOne, intercalate_cons, StrList.of, StrList.tokens] using hopen

end E2Mail.Sieve
