import E2Mail.Lib.Lexer
import E2Mail.Lib.Text
import E2Mail.Sieve.Types
import Mathlib.Data.List.TakeWhile

/-!
# The tokens of a Sieve script

`tokenize` goes through a script from the left; `lexStep` is one turn of its loop. The
second half says what the pieces of text become that a script is written with.
-/

namespace E2Mail.Sieve

open Lib Lib.Text Lib.LexStep

/-- What `\s` matches and `trim` cuts off. -/
def isWhite (c : Char) : Bool :=
  let n := c.toNat
  (9 ≤ n && n ≤ 13) || n == 32 || n == 160 || n == 5760 || (8192 ≤ n && n ≤ 8202) ||
    n == 8232 || n == 8233 || n == 8239 || n == 8287 || n == 12288 || n == 65279

/-- `String.prototype.trim`. -/
def trim (s : Text) : Text := trimBy isWhite s

/-- `[A-Za-z_]` -/
def isWordStart (c : Char) : Bool := c.isAlpha || c == '_'

/-- `[A-Za-z0-9_-]` -/
def isWordChar (c : Char) : Bool := c.isAlphanum || c == '_' || c == '-'

/-- `toLowerCase` of letters, digits, underscores and hyphens. -/
def toLowerCase (s : Text) : Text := s.map Char.toLower

/-- The kind of a token. -/
inductive TokKind
  | quoted | word | annot | punct | num | comment
  deriving DecidableEq, Repr

/-- `Tok`. -/
structure Tok where
  /-- `k` -/
  k : TokKind
  /-- `v` -/
  v : Text
  deriving DecidableEq, Repr

/-- A token of one character. -/
def Tok.punct (c : Char) : Tok := ⟨.punct, [c]⟩

/-- A string between quotes. -/
def Tok.quoted (v : Text) : Tok := ⟨.quoted, v⟩

/-- A name. -/
def Tok.word (v : Text) : Tok := ⟨.word, v⟩

/-- A tag, with its colon. -/
def Tok.annot (v : Text) : Tok := ⟨.annot, ':' :: v⟩

/-- A comment, without the `#`. -/
def Tok.comment (v : Text) : Tok := ⟨.comment, v⟩

/-- The rest of a string after its opening quote: what it stands for, and what comes
after the closing one. A backslash takes the next character as it is. -/
def readQuoted : Text → Option (Text × Text)
  | [] => none
  | '\\' :: c :: s => (readQuoted s).map fun q => (c :: q.1, q.2)
  | '"' :: s => some ([], s)
  | c :: s => (readQuoted s).map fun q => (c :: q.1, q.2)

/-- `/^\s*\d+\+?\s*$/` -/
def isLiteralLength (s : Text) : Bool :=
  let digits := s.dropWhile isWhite
  let tail := digits.dropWhile Char.isDigit
  !(digits.takeWhile Char.isDigit).isEmpty && (trimPrefix ['+'] tail).all isWhite

/-- After `{`, the length of a literal and its `}`: what comes after these. -/
def readLiteral (s : Text) : Option Text :=
  match s.dropWhile (· != '}') with
  | [] => none
  | _ :: rest => if isLiteralLength (s.takeWhile (· != '}')) then some rest else none

/-- One turn of the loop of `tokenize`. -/
def lexStep : LexStep Char Tok
  | [] => none
  | c :: s =>
    if c = '#' then
      some ([.comment (trim (s.takeWhile (· != '\n')))], s.dropWhile (· != '\n'))
    else if c = '/' ∧ s.head? = some '*' then
      (Text.after ['*', '/'] (s.drop 1)).map fun rest => ([], rest)
    else if isWhite c then some ([], s)
    else if c = '"' then (readQuoted s).map fun q => ([.quoted q.1], q.2)
    else if c = '{' then some ([.punct '{'], (readLiteral s).getD s)
    else if c ∈ ['}', '(', ')', ',', ';', '['] then some ([.punct c], s)
    else if c = ']' then some ([.punct ']'], s)
    else if c = ':' then
      let name := s.takeWhile isWordChar
      if name.isEmpty then none
      else some ([.annot (toLowerCase name)], s.dropWhile isWordChar)
    else if isWordStart c then
      some ([.word (toLowerCase (c :: s.takeWhile isWordChar))], s.dropWhile isWordChar)
    else if c.isDigit then
      some ([⟨.num, c :: s.takeWhile Char.isDigit⟩], s.dropWhile Char.isDigit)
    else none

/-- `tokenize`. -/
def tokenize (src : Text) : Option (List Tok) := lex lexStep src

/-! ## Every turn takes something -/

theorem length_readQuoted {s v rest : Text} (h : readQuoted s = some (v, rest)) :
    rest.length < s.length := by
  induction s using readQuoted.induct generalizing v with
  | case1 => simp [readQuoted] at h
  | case2 c s ih =>
    simp only [readQuoted, Option.map_eq_some_iff] at h
    obtain ⟨q, hq, heq⟩ := h
    obtain ⟨rfl, rfl⟩ := Prod.mk.inj heq
    have hlt := ih hq
    simp only [List.length_cons]
    omega
  | case3 s =>
    simp only [readQuoted] at h
    obtain ⟨rfl, rfl⟩ := Prod.mk.inj (Option.some.inj h)
    simp
  | case4 c s hesc hquote ih =>
    rw [readQuoted, Option.map_eq_some_iff] at h
    · obtain ⟨q, hq, heq⟩ := h
      obtain ⟨rfl, rfl⟩ := Prod.mk.inj heq
      have hlt := ih hq
      simp only [List.length_cons]
      omega
    · exact hesc
    · exact hquote

theorem length_after (piece : Text) : ∀ {s rest : Text},
    Text.after piece s = some rest → rest.length ≤ s.length := by
  intro s
  induction s with
  | nil =>
    intro rest h
    rw [Text.after] at h
    split at h
    · obtain rfl := Option.some.inj h
      exact Nat.le_refl 0
    · cases h
  | cons c s ih =>
    intro rest h
    rw [Text.after] at h
    split at h
    · obtain rfl := Option.some.inj h
      rw [List.length_drop]
      omega
    · exact (ih h).trans (Nat.le_succ _)

theorem length_readLiteral {s rest : Text} (h : readLiteral s = some rest) :
    rest.length ≤ s.length := by
  rw [readLiteral] at h
  have hle := (List.dropWhile_suffix (· != '}') (l := s)).length_le
  split at h
  · cases h
  · rename_i d tail heq
    split at h
    · obtain rfl := Option.some.inj h
      rw [heq, List.length_cons] at hle
      omega
    · cases h

/-- **One turn** leaves less of the script. -/
theorem lexStep_shrinks : Shrinks lexStep := by
  intro s ts rest h
  cases s with
  | nil => simp [lexStep] at h
  | cons c s =>
    have hdrop : ∀ p : Char → Bool, (s.dropWhile p).length ≤ s.length := fun p =>
      (List.dropWhile_suffix p).length_le
    have hle : rest.length ≤ s.length := by
      simp only [lexStep] at h
      split at h
      · obtain ⟨-, rfl⟩ := Prod.mk.inj (Option.some.inj h)
        exact hdrop _
      · split at h
        · rw [Option.map_eq_some_iff] at h
          obtain ⟨tail, htail, heq⟩ := h
          obtain ⟨-, rfl⟩ := Prod.mk.inj heq
          have hlen := length_after _ htail
          rw [List.length_drop] at hlen
          omega
        · split at h
          · obtain ⟨-, rfl⟩ := Prod.mk.inj (Option.some.inj h)
            exact Nat.le_refl _
          · split at h
            · rw [Option.map_eq_some_iff] at h
              obtain ⟨q, hq, heq⟩ := h
              obtain ⟨-, rfl⟩ := Prod.mk.inj heq
              exact (length_readQuoted hq).le
            · split at h
              · obtain ⟨-, rfl⟩ := Prod.mk.inj (Option.some.inj h)
                cases hlit : readLiteral s with
                | none => exact Nat.le_refl _
                | some tail => exact length_readLiteral hlit
              · split at h
                · obtain ⟨-, rfl⟩ := Prod.mk.inj (Option.some.inj h)
                  exact Nat.le_refl _
                · split at h
                  · obtain ⟨-, rfl⟩ := Prod.mk.inj (Option.some.inj h)
                    exact Nat.le_refl _
                  · split at h
                    · split at h
                      · cases h
                      · obtain ⟨-, rfl⟩ := Prod.mk.inj (Option.some.inj h)
                        exact hdrop _
                    · split at h
                      · obtain ⟨-, rfl⟩ := Prod.mk.inj (Option.some.inj h)
                        exact hdrop _
                      · split at h
                        · obtain ⟨-, rfl⟩ := Prod.mk.inj (Option.some.inj h)
                          exact hdrop _
                        · cases h
    exact Nat.lt_succ_of_le hle

end E2Mail.Sieve
