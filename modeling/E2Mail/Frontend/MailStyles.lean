import E2Mail.Lib.Pattern

/-!
# The styles of a mail

The frame that shows a mail takes the style elements out of its HTML, and puts their text
into one style element of its own. A text is a list of UTF-16 code units.

* `extractMailStyles` — the passes over the HTML and over the collected CSS.
* `Spliced` — a text in which `</style` comes together when every `<style` inside it is
  taken out.
* `free_extractMailStyles_iff` — when the collected CSS cannot end its style element.
-/

namespace E2Mail.Frontend

open Lib.Pattern

/-- A JavaScript string. -/
abbrev JSText := List UInt16

/-- A string literal. -/
def js (s : String) : JSText := s.toList.map fun c => UInt16.ofNat c.toNat

/-! ## Regular expressions -/

/-- What `/i` makes of a code unit: ASCII letters in lower case. -/
def lower (c : UInt16) : UInt16 := if 65 ≤ c && c ≤ 90 then c + 32 else c

/-- `\w`. -/
def isWord (c : UInt16) : Bool :=
  (48 ≤ c && c ≤ 57) || (65 ≤ c && c ≤ 90) || c == 95 || (97 ≤ c && c ≤ 122)

/-- `\s`. -/
def isWhite (c : UInt16) : Bool :=
  (9 ≤ c && c ≤ 13) || c == 0x20 || c == 0xA0 || c == 0x1680 || (0x2000 ≤ c && c ≤ 0x200A) ||
    c == 0x2028 || c == 0x2029 || c == 0x202F || c == 0x205F || c == 0x3000 || c == 0xFEFF

/-- The code unit of an ASCII character. -/
def unit (c : Char) : UInt16 := UInt16.ofNat c.toNat

/-- `text` in any case, at the beginning; what it returns is a length, here and below. -/
def keyword (text : String) (s : JSText) : Option Nat := literal lower (js text) s

/-- `<style\b[^>]*>`. -/
def styleTag (s : JSText) : Option Nat :=
  match keyword "<style" s with
  | none => none
  | some n =>
    if ((s.drop n).head?.map isWord).getD false then none
    else
      match (s.drop n).dropWhile (· != unit '>') with
      | [] => none
      | _ :: _ => some (n + ((s.drop n).takeWhile (· != unit '>')).length + 1)

/-- How much stands before the first match of `find`. -/
def indexOf (find : JSText → Option Nat) : JSText → Option Nat
  | [] => if (find []).isSome then some 0 else none
  | c :: s => if (find (c :: s)).isSome then some 0 else (indexOf find s).map (· + 1)

/-- `<style\b[^>]*>[\s\S]*?<\/style>`. -/
def styleElement (s : JSText) : Option Nat :=
  match styleTag s with
  | none => none
  | some n => (indexOf (keyword "</style>") (s.drop n)).map fun i => n + i + 8

/-- `.replace(/^<style\b[^>]*>/i, '')`. -/
def cutOpeningTag (s : JSText) : JSText := s.drop ((styleTag s).getD 0)

/-- `.replace(/<\/style>\s*$/i, '')`. -/
def cutClosingTag : JSText → JSText
  | [] => []
  | c :: s =>
    if (keyword "</style>" (c :: s)).isSome && ((c :: s).drop 8).all isWhite then []
    else c :: cutClosingTag s

/-- `@import[^;}]*;?`. -/
def importRule (s : JSText) : Option Nat :=
  (keyword "@import" s).map fun n =>
    let inside := (s.drop n).takeWhile fun c => c != unit ';' && c != unit '}'
    let after := (s.drop n).dropWhile fun c => c != unit ';' && c != unit '}'
    n + inside.length + if after.head? = some (unit ';') then 1 else 0

/-- The length of a quotation mark at the beginning, if there is one. -/
def quote (s : JSText) : Nat :=
  if s.head? = some (unit '"') ∨ s.head? = some (unit '\'') then 1 else 0

/-- The length of the white space at the beginning. -/
def blanks (s : JSText) : Nat := (s.takeWhile isWhite).length

/-- `url\(\s*['"]?https?:[^)'"]*['"]?\s*\)`. -/
def remoteUrl (s : JSText) : Option Nat := do
  let n ← keyword "url(" s
  let n := n + blanks (s.drop n)
  let n := n + quote (s.drop n)
  let scheme ← (keyword "https:" (s.drop n)).or (keyword "http:" (s.drop n))
  let n := n + scheme
  -- what follows the address is a parenthesis or a quotation mark
  let n := n + ((s.drop n).takeWhile fun c =>
    c != unit ')' && c != unit '"' && c != unit '\'').length
  let n := n + quote (s.drop n)
  let n := n + blanks (s.drop n)
  if (s.drop n).head? = some (unit ')') then some (n + 1) else none

/-- `expression\s*\(`. -/
def expressionCall (s : JSText) : Option Nat := do
  let n ← keyword "expression" s
  let n := n + blanks (s.drop n)
  if (s.drop n).head? = some (unit '(') then some (n + 1) else none

/-! ## Taking the styles out -/

/-- What is kept of a style element. -/
def styleInner (m : JSText) : JSText :=
  let inner := cutClosingTag (cutOpeningTag m)
  let inner := replaceAll importRule (fun _ => []) inner
  let inner := replaceAll remoteUrl (fun _ => js "none") inner
  let inner := replaceAll expressionCall (fun _ => js "expr(") inner
  inner.take 60000

/-- The loop that takes style elements out until there are none: what it has kept of them, and the
rest of the HTML. -/
def collectStyles : Nat → List JSText → JSText → List JSText × JSText
  | 0, blocks, rest => (blocks, rest)
  | n + 1, blocks, prev =>
    let rest := replaceAll styleElement (fun _ => []) prev
    let found := (matchesFrom styleElement 0 prev).map styleInner
    let blocks := blocks ++ found.filter fun inner => inner.any fun c => !isWhite c
    if rest = prev then (blocks, rest) else collectStyles n blocks rest

/-- The text of the style elements of a mail, one line feed between them. -/
def styleText (html : JSText) : JSText :=
  (js "\n").intercalate (collectStyles (html.length + 1) [] html).1

/-- `extractMailStyles`: the CSS, and the rest of the HTML. -/
def extractMailStyles (html : JSText) : JSText × JSText :=
  let css := styleText html
  let css := eraseAll lower (js "</style") css
  let css := eraseAll lower (js "<style") css
  (css.take 60000, (collectStyles (html.length + 1) [] html).2)

/-- The loop stops because there is no style element left. -/
theorem collectStyles_stable (n : Nat) : ∀ (blocks : List JSText) (html : JSText), html.length < n →
    replaceAll styleElement (fun _ => []) (collectStyles n blocks html).2 =
      (collectStyles n blocks html).2 := by
  have hpos : ∀ (s : JSText) k, styleElement s = some k → 0 < k := by
    intro s k h
    rw [styleElement] at h
    split at h
    · cases h
    · obtain ⟨i, -, rfl⟩ := Option.map_eq_some_iff.mp h
      omega
  induction n with
  | zero => exact fun _ _ h => absurd h (Nat.not_lt_zero _)
  | succ n ih =>
    intro blocks html hlen
    rw [collectStyles]
    split
    next h => rw [h, h]
    next h =>
      have hlt := (length_replaceAll_nil styleElement html).2 hpos h
      exact ih _ _ (by omega)

/-! ## Ending the style element -/

/-- What would end a style element, in lower case. -/
def closing : JSText := js "</style"

/-- What the last pass takes out, in lower case. -/
def opening : JSText := js "<style"

/-- The letters of a `</style` stand in the text with nothing but `<style` between them, once no
`</style` is left in it, and before the text is cut off. -/
def Spliced (text : JSText) : Prop :=
  ∃ css, Erases lower closing text css ∧ Free lower closing css ∧
    ∃ x' t y x m, css = x' ++ (t ++ y) ∧ Erases lower opening t m ∧ m.map lower = closing ∧
      Erases lower opening x' x ∧ Free lower opening x ∧ x.length + closing.length ≤ 60000

theorem headed_closing : Headed (unit '<') closing := ⟨js "/style", rfl, by decide⟩

theorem headed_opening : Headed (unit '<') opening := ⟨js "style", rfl, by decide⟩

/-- **When the CSS of a mail stays inside its style element**: exactly when the passes that take out
`</style` and then `<style` do not put a `</style` together. -/
theorem free_extractMailStyles_iff (html : JSText) :
    Free lower closing (extractMailStyles html).1 ↔ ¬Spliced (styleText html) := by
  have hclosed : Erases lower closing (styleText html) (eraseAll lower closing (styleText html)) :=
    erases_eraseAll (ne_nil_of_headed headed_closing) _
  have hfree : Free lower closing (eraseAll lower closing (styleText html)) :=
    free_eraseAll (ne_nil_of_headed headed_closing) _
  have happear : ∀ (x m : JSText), m.map lower = closing →
      ((∃ y, eraseAll lower opening (eraseAll lower closing (styleText html)) = x ++ (m ++ y)) ↔
        Free lower opening x ∧ ∃ x' t y, eraseAll lower closing (styleText html) = x' ++ (t ++ y) ∧
          Erases lower opening x' x ∧ Erases lower opening t m) := fun x m hm =>
    eraseAll_eq_iff headed_opening headed_closing (by decide) (by decide) _ x hm
  change Free lower closing
    ((eraseAll lower opening (eraseAll lower closing (styleText html))).take 60000) ↔ _
  constructor
  · rintro hinside ⟨css, hcss, hcssFree, x', t, y, x, m, hsplit, ht, hm, hx', hx, hlen⟩
    obtain rfl := eraseAll_eq_of_free headed_closing hcss hcssFree
    obtain ⟨z, hz⟩ := (happear x m hm).mpr ⟨hx, x', t, y, hsplit, hx', ht⟩
    have hmlen : m.length = closing.length := by rw [← hm, List.length_map]
    refine hinside x m (z.take (60000 - x.length - m.length)) ?_ hm
    rw [hz, List.take_append, List.take_of_length_le (by omega), List.take_append,
      List.take_of_length_le (by omega)]
  · rintro hno x m y hcut hm
    have hmlen : m.length = closing.length := by rw [← hm, List.length_map]
    have hlen : x.length + closing.length ≤ 60000 := by
      have h := congrArg List.length hcut
      rw [List.length_take, List.length_append, List.length_append] at h
      omega
    have hwhole : eraseAll lower opening (eraseAll lower closing (styleText html)) =
        x ++ (m ++ (y ++ (eraseAll lower opening (eraseAll lower closing (styleText html))).drop
          60000)) := by
      rw [← List.append_assoc m, ← List.append_assoc x, ← hcut, List.take_append_drop]
    obtain ⟨hx, x', t, z, hsplit, hx', ht⟩ := (happear x m hm).mp ⟨_, hwhole⟩
    exact hno ⟨_, hclosed, hfree, x', t, z, x, m, hsplit, ht, hm, hx', hx, hlen⟩

/-- A style element whose CSS ends the style element that it is put into. -/
theorem extractMailStyles_breakout :
    ¬Free lower closing (extractMailStyles (js "<style></<stylestyle></style>")).1 := by
  have hcss : (extractMailStyles (js "<style></<stylestyle></style>")).1 =
      [] ++ (js "</style" ++ js ">") := by decide +kernel
  exact fun hfree => hfree _ _ _ hcss (by decide)

end E2Mail.Frontend
