import E2Mail.Frontend.CidImages
import E2Mail.Frontend.LocalQuery

/-!
# A text in two transfer encodings

A part of a message carries its text in quoted-printable or in base64. The client has a decoder
for each.

* `QuotedPrintable`, `Base64` — what an encoding of bytes is, with line breaks of any kind.
* `message` — a message with one part.
* `extract_part`, `extract_blank` — what `extractTextFromMime` takes out of it.
* `agree_iff` — when the two encodings of a text give the text.
-/

namespace E2Mail.Frontend.TextEncodings

open Lib Lib.Regex Pgp
open CidImages (utf8Bytes ofString)
open Preview (asciiLetters lowercases_ascii)

/-! ## The encodings -/

/-- The bytes of a text in UTF-8. -/
def utf8 (text : String) : List Nat := text.toList.flatMap fun c => utf8Bytes c.toNat

/-- `[0-9A-F]`, with `/i`. -/
def isHex (c : UInt16) : Bool := (48 ≤ c && c ≤ 57) || (65 ≤ c && c ≤ 70) || (97 ≤ c && c ≤ 102)

/-- What a quoted-printable text is made of. -/
inductive Quoted where
  /-- a letter that stands for itself -/
  | plain (b : Nat)
  /-- two hexadecimal digits after `=` -/
  | escape (high low : UInt16)
  /-- a line break that is none of the text -/
  | soft (carriageReturn : Bool)

/-- The letters that stand for themselves are those of ASCII without `=`, blanks, tabs and line
breaks. -/
def Quoted.WellFormed : Quoted → Prop
  | plain b => (b = 9 ∨ b = 10 ∨ b = 13 ∨ (32 ≤ b ∧ b ≤ 126)) ∧ b ≠ 61
  | escape high low => isHex high = true ∧ isHex low = true
  | soft _ => True

def Quoted.text : Quoted → JSText
  | plain b => [UInt16.ofNat b]
  | escape high low => [unit '=', high, low]
  | soft carriageReturn => if carriageReturn then js "=\r\n" else js "=\n"

def Quoted.bytes : Quoted → List Nat
  | plain b => [b]
  | escape high low => [16 * hexDigit high + hexDigit low]
  | soft _ => []

/-- The body is a quoted-printable form of the bytes. -/
def QuotedPrintable (bytes : List Nat) (body : JSText) : Prop :=
  ∃ pieces : List Quoted, (∀ p ∈ pieces, p.WellFormed) ∧ bytes = pieces.flatMap Quoted.bytes ∧
    body = pieces.flatMap Quoted.text

/-- A digit of base64. -/
def base64Letter (n : Nat) : UInt16 :=
  if n < 26 then UInt16.ofNat (65 + n)
  else if n < 52 then UInt16.ofNat (71 + n)
  else if n < 62 then UInt16.ofNat (n - 4)
  else if n = 62 then unit '+' else unit '/'

/-- The digits of bytes, filled up to a multiple of four. -/
def base64Text : List Nat → JSText
  | a :: b :: c :: s =>
    base64Letter (a / 4) :: base64Letter (a % 4 * 16 + b / 16) :: base64Letter (b % 16 * 4 + c / 64) ::
      base64Letter (c % 64) :: base64Text s
  | [a, b] =>
    [base64Letter (a / 4), base64Letter (a % 4 * 16 + b / 16), base64Letter (b % 16 * 4), unit '=']
  | [a] => [base64Letter (a / 4), base64Letter (a % 4 * 16), unit '=', unit '=']
  | [] => []

/-- The body is a base64 form of the bytes, wrapped in any way. -/
def Base64 (bytes : List Nat) (body : JSText) : Prop := removeWhite body = base64Text bytes

/-! ## A message with one part -/

/-- A letter of a boundary. -/
def isBoundaryUnit (c : UInt16) : Bool := isWord c || (js "-.=+,/?()").contains c

/-- A boundary. -/
structure Boundary where
  letters : JSText
  ne_nil : letters ≠ []
  plain : ∀ c ∈ letters, isBoundaryUnit c = true

inductive TransferEncoding where
  | quotedPrintable
  | base64

def TransferEncoding.name : TransferEncoding → JSText
  | quotedPrintable => js "quoted-printable"
  | base64 => js "base64"

/-- What separates the parts. -/
def Boundary.line (b : Boundary) : JSText := js "--" ++ b.letters

/-- The header of the part. -/
def partHeader (e : TransferEncoding) : JSText :=
  js "Content-Type: text/plain; charset=utf-8\r\nContent-Transfer-Encoding: " ++ e.name

/-- A message with a text in one part. -/
def message (b : Boundary) (e : TransferEncoding) (body : JSText) : JSText :=
  js "Content-Type: multipart/mixed; boundary=\"" ++ (b.letters ++ (js "\"\r\n\r\n" ++ (b.line ++
    (js "\r\n" ++ (partHeader e ++ (js "\r\n\r\n" ++ (body ++ (js "\r\n" ++ (b.line ++ js "--\r\n")))))))))

section

variable (U : Unicode) (b : Boundary)

/-- The text that is taken out of the message, trimmed; no text is an empty one. -/
def shownText (e : TransferEncoding) (body : JSText) : JSText :=
  trim ((extractTextFromMime U (message b e body)).getD [])

/-- **The two encodings agree**: both give the text. -/
structure Agree (text : String) (quoted base64 : JSText) : Prop where
  quoted : shownText U b .quotedPrintable quoted = trim (ofString text)
  base64 : shownText U b .base64 base64 = trim (ofString text)

end

/-! ## The quoted-printable decoder -/

section QuotedDecoder

variable {pieces : List Quoted} {s t : JSText}

/-- `=\r?\n`, as a finder. -/
def softFind : JSText → Option Nat
  | c :: d :: s =>
    if c = unit '=' then
      if d = unit '\n' then some 2
      else if d = unit '\r' ∧ s.head? = some (unit '\n') then some 3 else none
    else none
  | _ => none

/-- `=([0-9A-F]{2})`, as a finder. -/
def escapeFind : JSText → Option Nat
  | c :: d :: e :: _ => if c = unit '=' ∧ isHex d = true ∧ isHex e = true then some 3 else none
  | _ => none

theorem replaceAll_softBreak (s : JSText) :
    replaceAll softBreak (fun _ => []) s = Pattern.replaceAll softFind (fun _ => []) s := by
  refine replaceAll_eq (fun before s => ?_) rfl (fun s => ?_) s
  · rcases s with _ | ⟨c, _ | ⟨d, _ | ⟨e, s⟩⟩⟩
    · rfl
    · simp [softFind, matchAt, softBreak, newline, opt, oneOf, run]
    · simp only [softFind, matchAt, softBreak, newline, opt, oneOf, run]
      by_cases hc : c = unit '=' <;> by_cases hd : d = unit '\n' <;> simp_all [js, unit]
    · have hlength : (c :: d :: e :: s).length - s.length = 3 := by simp; omega
      have hlength' : (c :: d :: e :: s).length - (e :: s).length = 2 := by simp
      simp only [softFind, matchAt, softBreak, newline, opt, oneOf, run]
      by_cases hc : c = unit '=' <;> by_cases hd : d = unit '\n' <;> by_cases hd' : d = unit '\r' <;>
        by_cases he : e = unit '\n' <;> simp_all [js, unit]
  · rcases s with _ | ⟨c, _ | ⟨d, s⟩⟩
    · simp [softFind]
    · simp [softFind]
    · rw [softFind]
      grind

theorem replaceAll_escapedByte (s : JSText) :
    replaceAll escapedByte (fun m => hexUnit (m.group 1)) s =
      Pattern.replaceAll escapeFind (fun t => hexUnit t.tail) s := by
  refine replaceAll_eq (fun before s => ?_) rfl (fun s => ?_) s
  · rcases s with _ | ⟨c, _ | ⟨d, _ | ⟨e, s⟩⟩⟩
    · rfl
    · simp [escapeFind, matchAt, escapedByte, hexLetter, oneOf, run]
    · simp [escapeFind, matchAt, escapedByte, hexLetter, oneOf, run]
    · have hlength : (c :: d :: e :: s).length - s.length = 3 := by simp; omega
      have hlength' : (d :: e :: s).length - s.length = 2 := by simp; omega
      have hhex : hexLetter = letter isHex := rfl
      simp only [escapeFind, matchAt, escapedByte, hhex, oneOf, run]
      by_cases hc : c = unit '=' <;> by_cases hd : isHex d = true <;> by_cases he : isHex e = true <;>
        simp_all [js, unit, Match.group]
  · rcases s with _ | ⟨c, _ | ⟨d, _ | ⟨e, s⟩⟩⟩
    · simp [escapeFind]
    · simp [escapeFind]
    · simp [escapeFind]
    · simp [escapeFind]

theorem softFind_cons {c : UInt16} (h : c ≠ unit '=') (s : JSText) : softFind (c :: s) = none := by
  cases s with
  | nil => rfl
  | cons d s => rw [softFind, if_neg h]

theorem escapeFind_cons {c : UInt16} (h : c ≠ unit '=') (s : JSText) : escapeFind (c :: s) = none := by
  rcases s with _ | ⟨d, _ | ⟨e, s⟩⟩
  · rfl
  · rfl
  · rw [escapeFind, if_neg fun hand => h hand.1]

theorem isHex_ne {c : UInt16} (h : isHex c = true) : c ≠ unit '=' ∧ c ≠ unit '\n' ∧ c ≠ unit '\r' := by
  refine ⟨?_, ?_, ?_⟩ <;>
  · rintro rfl
    cases h

theorem plain_ne {b : Nat} (h : (Quoted.plain b).WellFormed) : UInt16.ofNat b ≠ unit '=' := by
  obtain ⟨hb, hne⟩ := h
  intro heq
  have hnat := congrArg UInt16.toNat heq
  have hsize : UInt16.size = 65536 := rfl
  rw [UInt16.toNat_ofNat_of_lt' (by omega)] at hnat
  exact hne hnat

/-- A piece after the first replacement. -/
def Quoted.hard : Quoted → JSText
  | soft _ => []
  | p => p.text

/-- The first replacement takes out the soft line breaks. -/
theorem soft_pass (hp : ∀ p ∈ pieces, p.WellFormed) (ht : Pattern.replaceAll softFind (fun _ => []) t = t) :
    Pattern.replaceAll softFind (fun _ => []) (pieces.flatMap Quoted.text ++ t) =
      pieces.flatMap Quoted.hard ++ t := by
  induction pieces with
  | nil => exact ht
  | cons p pieces ih =>
    obtain ⟨hfirst, hp⟩ := List.forall_mem_cons.mp hp
    rw [List.flatMap_cons, List.flatMap_cons, List.append_assoc, List.append_assoc, ← ih hp]
    cases p with
    | plain b => exact Pattern.replaceAll_none (softFind_cons (plain_ne hfirst) _)
    | escape high low =>
      obtain ⟨hhigh, hlow⟩ := hfirst
      have hnone : ∀ y, softFind (unit '=' :: high :: y) = none := by
        intro y
        rw [softFind, if_pos rfl, if_neg (isHex_ne hhigh).2.1, if_neg fun h => (isHex_ne hhigh).2.2 h.1]
      simp only [Quoted.text, Quoted.hard, List.cons_append, List.nil_append]
      rw [Pattern.replaceAll_none (hnone _), Pattern.replaceAll_none (softFind_cons (isHex_ne hhigh).1 _),
        Pattern.replaceAll_none (softFind_cons (isHex_ne hlow).1 _)]
    | soft carriageReturn =>
      cases carriageReturn with
      | false => exact (Pattern.found (List.cons_ne_nil _ _) rfl _).1
      | true => exact (Pattern.found (List.cons_ne_nil _ _) rfl _).1

/-- The second replaces the escapes. -/
theorem escape_pass (hp : ∀ p ∈ pieces, p.WellFormed)
    (ht : Pattern.replaceAll escapeFind (fun w => hexUnit w.tail) t = t) :
    Pattern.replaceAll escapeFind (fun w => hexUnit w.tail) (pieces.flatMap Quoted.hard ++ t) =
      (pieces.flatMap Quoted.bytes).map UInt16.ofNat ++ t := by
  induction pieces with
  | nil => exact ht
  | cons p pieces ih =>
    obtain ⟨hfirst, hp⟩ := List.forall_mem_cons.mp hp
    rw [List.flatMap_cons, List.flatMap_cons, List.map_append, List.append_assoc, List.append_assoc,
      ← ih hp]
    cases p with
    | plain b => exact Pattern.replaceAll_none (escapeFind_cons (plain_ne hfirst) _)
    | escape high low =>
      have hfind : ∀ y, escapeFind ([unit '=', high, low] ++ y) = some 3 := fun y => if_pos ⟨rfl, hfirst⟩
      have hunit : hexUnit [high, low] = [UInt16.ofNat (16 * hexDigit high + hexDigit low)] := by
        simp [hexUnit]
      rw [Quoted.hard, Quoted.text, (Pattern.found (List.cons_ne_nil _ _) (hfind _) _).1,
        List.tail_cons, hunit]
      · rfl
      · exact fun c h => by cases h
    | soft carriageReturn => rfl

/-- **The decoder** makes a letter of every byte. -/
theorem decodeQuoted_text (hp : ∀ p ∈ pieces, p.WellFormed) (ht : t = [] ∨ t = js "=") :
    decodeQuoted (pieces.flatMap Quoted.text ++ t) =
      (pieces.flatMap Quoted.bytes).map UInt16.ofNat ++ t := by
  have hsoft : Pattern.replaceAll softFind (fun _ => []) t = t := by
    obtain rfl | rfl := ht <;> rfl
  have hescape : Pattern.replaceAll escapeFind (fun w => hexUnit w.tail) t = t := by
    obtain rfl | rfl := ht <;> rfl
  rw [decodeQuoted, replaceAll_softBreak, soft_pass hp hsoft, replaceAll_escapedByte,
    escape_pass hp hescape]

end QuotedDecoder

/-! ## Trimming -/

section Trimming

variable {pieces : List Quoted} {s : JSText}

/-- What is trimmed off is white space at both ends. -/
theorem trim_split (s : JSText) : ∃ a b, s = a ++ (trim s ++ b) ∧ (∀ c ∈ a, isWhite c = true) ∧
    ∀ c ∈ b, isWhite c = true := by
  refine ⟨s.takeWhile isWhite, (s.dropWhile isWhite).rtakeWhile isWhite, ?_, ?_, ?_⟩
  · rw [trim, List.rdropWhile_append_rtakeWhile, List.takeWhile_append_dropWhile]
  · exact fun c hc => List.mem_takeWhile_imp hc
  · exact fun c hc => List.mem_rtakeWhile_imp hc

/-- The white space of ASCII that stands for itself. -/
def IsBlank (b : Nat) : Prop := b = 9 ∨ b = 10 ∨ b = 13 ∨ b = 32

theorem isWhite_plain {b : Nat} (h : (Quoted.plain b).WellFormed) (hw : isWhite (UInt16.ofNat b) = true) :
    IsBlank b := by
  obtain ⟨hb, -⟩ := h
  have hlt : b ≤ 126 := by omega
  have hall : (List.range 127).all
      (fun b => !isWhite (UInt16.ofNat b) || (9 ≤ b && b ≤ 13) || b == 32) = true :=
    rfl
  have hcase := List.all_eq_true.mp hall b (List.mem_range.mpr (by omega))
  simp [hw] at hcase
  rw [IsBlank]
  omega

theorem isHex_black {c : UInt16} (h : isHex c = true) : isWhite c = false := by
  simp only [isHex, isWhite, Bool.or_eq_true, Bool.and_eq_true, decide_eq_true_eq,
    UInt16.le_iff_toNat_le] at h ⊢
  simp [← UInt16.toNat_inj] at h ⊢
  omega

/-- A text of pieces without the blanks in front. -/
structure Front (pieces : List Quoted) (body : JSText) (mid : List Quoted) (w : List Nat) : Prop where
  text : body = mid.flatMap Quoted.text
  wellFormed : ∀ p ∈ mid, p.WellFormed
  bytes : pieces.flatMap Quoted.bytes = w ++ mid.flatMap Quoted.bytes
  blank : ∀ b ∈ w, IsBlank b

/-- A text of pieces without the blanks at the end. Of a soft line break there the `=` is left. -/
structure Back (pieces : List Quoted) (body : JSText) (mid : List Quoted) (w : List Nat) (t : JSText) :
    Prop where
  text : body = mid.flatMap Quoted.text ++ t
  wellFormed : ∀ p ∈ mid, p.WellFormed
  bytes : pieces.flatMap Quoted.bytes = mid.flatMap Quoted.bytes ++ w
  blank : ∀ b ∈ w, IsBlank b
  last : t = [] ∧ body.getLast? ≠ some (unit '=') ∨ t = js "="

theorem front_trimmed (hp : ∀ p ∈ pieces, p.WellFormed) :
    ∃ mid w, Front pieces ((pieces.flatMap Quoted.text).dropWhile isWhite) mid w := by
  induction pieces with
  | nil => exact ⟨[], [], rfl, hp, rfl, fun b hb => by cases hb⟩
  | cons p pieces ih =>
    obtain ⟨hfirst, hrest⟩ := List.forall_mem_cons.mp hp
    have hstop : ∀ c y, (p :: pieces).flatMap Quoted.text = c :: y → isWhite c = false →
        ∃ mid w, Front (p :: pieces) (((p :: pieces).flatMap Quoted.text).dropWhile isWhite) mid w := by
      intro c y hy hc
      refine ⟨p :: pieces, [], ?_, hp, rfl, fun b hb => by cases hb⟩
      rw [hy, List.dropWhile_cons_of_neg (by simp [hc])]
    cases p with
    | plain b =>
      cases hw : isWhite (UInt16.ofNat b) with
      | false => exact hstop _ _ rfl hw
      | true =>
        obtain ⟨mid, w, h⟩ := ih hrest
        refine ⟨mid, b :: w, ?_, h.wellFormed, ?_,
          List.forall_mem_cons.mpr ⟨isWhite_plain hfirst hw, h.blank⟩⟩
        · rw [← h.text]
          exact List.dropWhile_cons_of_pos hw
        · exact congrArg (b :: ·) h.bytes
    | escape high low => exact hstop _ _ rfl rfl
    | soft carriageReturn => cases carriageReturn <;> exact hstop _ _ rfl rfl

theorem back_trimmed (hp : ∀ p ∈ pieces, p.WellFormed) :
    ∃ mid w t, Back pieces ((pieces.flatMap Quoted.text).rdropWhile isWhite) mid w t := by
  induction pieces using List.reverseRecOn with
  | nil => exact ⟨[], [], [], rfl, hp, rfl, (fun b hb => by cases hb), .inl ⟨rfl, by simp⟩⟩
  | append_singleton pieces p ih =>
    have hlast := hp p (by simp)
    have hinit : ∀ p ∈ pieces, p.WellFormed := fun q hq => hp q (by simp [hq])
    have htext : (pieces ++ [p]).flatMap Quoted.text = pieces.flatMap Quoted.text ++ p.text := by simp
    have hstop : ∀ x c, p.text = x ++ [c] → isWhite c = false → c ≠ unit '=' → ∃ mid w t,
        Back (pieces ++ [p]) (((pieces ++ [p]).flatMap Quoted.text).rdropWhile isWhite) mid w t := by
      intro x c hx hc hne
      rw [htext, hx, ← List.append_assoc, List.rdropWhile_concat_neg _ _ _ (by simp [hc])]
      refine ⟨pieces ++ [p], [], [], ?_, hp, by simp, (fun b hb => by cases hb), .inl ⟨rfl, ?_⟩⟩
      · rw [htext, hx, List.append_nil, List.append_assoc]
      · simpa using hne
    cases p with
    | plain b =>
      cases hw : isWhite (UInt16.ofNat b) with
      | false => exact hstop [] _ rfl hw (plain_ne hlast)
      | true =>
        obtain ⟨mid, w, t, h⟩ := ih hinit
        have hdrop : ((pieces ++ [Quoted.plain b]).flatMap Quoted.text).rdropWhile isWhite =
            (pieces.flatMap Quoted.text).rdropWhile isWhite := by
          rw [htext]
          exact List.rdropWhile_concat_pos _ _ _ hw
        rw [hdrop]
        refine ⟨mid, w ++ [b], t, h.text, h.wellFormed, ?_, ?_, h.last⟩
        · simp [h.bytes, Quoted.bytes]
        · intro x hx
          obtain hx | hx := List.mem_append.mp hx
          · exact h.blank x hx
          · rw [List.mem_singleton.mp hx]
            exact isWhite_plain hlast hw
    | escape high low => exact hstop [unit '=', high] low rfl (isHex_black hlast.2) (isHex_ne hlast.2).1
    | soft carriageReturn =>
      have hdrop : ((pieces ++ [Quoted.soft carriageReturn]).flatMap Quoted.text).rdropWhile isWhite =
          pieces.flatMap Quoted.text ++ js "=" := by
        rw [htext, List.rdropWhile]
        cases carriageReturn <;> simp [Quoted.text, js, isWhite]
      rw [hdrop]
      exact ⟨pieces, [], js "=", rfl, hinit, by simp [Quoted.bytes], (fun b hb => by cases hb), .inr rfl⟩

theorem trim_last (s : JSText) : ∀ c ∈ (trim s).getLast?, isWhite c = false := by
  intro c hc
  have hne : trim s ≠ [] := by
    intro h
    rw [h] at hc
    cases hc
  have hlast := List.rdropWhile_last_not isWhite (s.dropWhile isWhite) hne
  rw [Option.mem_def, List.getLast?_eq_getLast_of_ne_nil hne] at hc
  rw [← Option.some.inj hc]
  exact Bool.not_eq_true _ ▸ hlast

/-- Only soft line breaks stand for no bytes, and they end with white space. -/
theorem white_of_soft (hbytes : pieces.flatMap Quoted.bytes = []) {c : UInt16}
    (hc : (pieces.flatMap Quoted.text).getLast? = some c) : isWhite c = true := by
  induction pieces using List.reverseRecOn with
  | nil => cases hc
  | append_singleton pieces p _ =>
    rw [List.flatMap_append, List.flatMap_singleton, List.append_eq_nil_iff] at hbytes
    cases p with
    | plain b => cases hbytes.2
    | escape high low => cases hbytes.2
    | soft carriageReturn =>
      rw [List.flatMap_append, List.flatMap_singleton, List.getLast?_append_of_ne_nil] at hc
      · cases carriageReturn <;> cases hc <;> rfl
      · cases carriageReturn <;> exact List.cons_ne_nil _ _

/-- A trimmed body is read as the bytes without blanks at the ends. -/
theorem decodeQuoted_trim {bytes : List Nat} {body : JSText} (h : QuotedPrintable bytes body) :
    ∃ w mid w' t, decodeQuoted (trim body) = mid.map UInt16.ofNat ++ t ∧ bytes = w ++ (mid ++ w') ∧
      (∀ b ∈ w, IsBlank b) ∧ (∀ b ∈ w', IsBlank b) ∧
      (t = [] ∧ (trim body).getLast? ≠ some (unit '=') ∨
        t = js "=" ∧ (trim body).getLast? = some (unit '=')) ∧
      (trim body ≠ [] → mid.map UInt16.ofNat ++ t ≠ []) := by
  obtain ⟨pieces, hp, rfl, rfl⟩ := h
  obtain ⟨mid, w, hfront⟩ := front_trimmed hp
  obtain ⟨mid', w', t, hback⟩ := back_trimmed hfront.wellFormed
  rw [← hfront.text, ← trim] at hback
  have ht : t = [] ∨ t = js "=" := by
    obtain ⟨h, -⟩ | h := hback.last
    · exact .inl h
    · exact .inr h
  refine ⟨w, mid'.flatMap Quoted.bytes, w', t, ?_, ?_, hfront.blank, hback.blank, ?_, ?_⟩
  · rw [hback.text, decodeQuoted_text hback.wellFormed ht]
  · rw [hfront.bytes, hback.bytes]
  · obtain h | rfl := hback.last
    · exact .inl h
    · refine .inr ⟨rfl, ?_⟩
      rw [hback.text]
      exact List.getLast?_concat ..
  · intro hne hnil
    obtain ⟨hbytes, rfl⟩ := List.append_eq_nil_iff.mp hnil
    rw [List.map_eq_nil_iff] at hbytes
    obtain ⟨c, hc⟩ := Option.isSome_iff_exists.mp (List.getLast?_isSome.mpr hne)
    have hblack := trim_last _ c hc
    rw [hback.text, List.append_nil] at hc
    rw [white_of_soft hbytes hc] at hblack
    cases hblack

end Trimming

theorem removeWhite_trim (s : JSText) : removeWhite (trim s) = removeWhite s := by
  obtain ⟨a, b, hs, ha, hb⟩ := trim_split s
  have hnil : ∀ x : JSText, (∀ c ∈ x, isWhite c = true) → removeWhite x = [] := by
    intro x hx
    rw [removeWhite, List.filter_eq_nil_iff]
    intro c hc
    simp [hx c hc]
  have happ : ∀ x y : JSText, removeWhite (x ++ y) = removeWhite x ++ removeWhite y :=
    fun x y => List.filter_append ..
  conv_rhs => rw [hs]
  rw [happ, happ, hnil a ha, hnil b hb, List.nil_append, List.append_nil]

theorem trim_white_append {a : JSText} (ha : ∀ c ∈ a, isWhite c = true) (s : JSText) :
    trim (a ++ s) = trim s := by
  rw [trim, trim, List.dropWhile_append_of_pos ha]

theorem trim_append_white {b : JSText} (hb : ∀ c ∈ b, isWhite c = true) (s : JSText) :
    trim (s ++ b) = trim s := by
  induction b using List.reverseRecOn with
  | nil => rw [List.append_nil]
  | append_singleton b c ih =>
    have hc : isWhite c = true := hb c (by simp)
    have hrest := ih fun d hd => hb d (by simp [hd])
    rw [← hrest, ← List.append_assoc, trim, trim, List.dropWhile_append]
    split
    · rename_i hall
      rw [List.isEmpty_iff] at hall
      rw [hall]
      simp [hc]
    · rw [List.rdropWhile_concat_pos _ _ _ hc]

/-! ## The UTF-8 decoder -/

section Utf8

variable {b cp n low high : Nat}

theorem codePoints_cons (q : Option Utf8Seq) (b : Nat) (s : List Nat) :
    codePoints q (b :: s) = (utf8Step q b).1 ++ codePoints (utf8Step q b).2 s := by
  cases q <;> rfl

/-- A byte of a character that is not its last. -/
theorem utf8Step_more (h : low ≤ b ∧ b ≤ high) (k : Nat) :
    utf8Step (some ⟨cp, k + 2, low, high⟩) b =
      ([], some ⟨cp * 0x40 + b % 0x40, k + 1, 0x80, 0xBF⟩) := by
  simp [utf8Step, h]

/-- The last byte of a character. -/
theorem utf8Step_last (h : low ≤ b ∧ b ≤ high) :
    utf8Step (some ⟨cp, 1, low, high⟩) b = ([cp * 0x40 + b % 0x40], none) := by
  simp [utf8Step, h]

theorem codePoints_char (hn : n.isValidChar) (s : List Nat) :
    codePoints none (utf8Bytes n ++ s) = n :: codePoints none s := by
  have hvalid : n < 0xD800 ∨ 0xDFFF < n ∧ n < 0x110000 := hn
  rw [utf8Bytes]
  split
  · have hlead : leadByte n = ([n], none) := if_pos (by omega)
    rw [List.singleton_append, codePoints_cons, utf8Step, hlead]
    rfl
  · split
    · have hlead : leadByte (0xC0 + n / 0x40) = ([], some ⟨(0xC0 + n / 0x40) % 0x20, 1, 0x80, 0xBF⟩) := by
        rw [leadByte, if_neg (by omega), if_pos (by omega)]
      simp only [List.cons_append, List.nil_append]
      rw [codePoints_cons, utf8Step, hlead, codePoints_cons, utf8Step_last (by omega)]
      simp only [List.nil_append, List.cons_append, List.cons.injEq, and_true]
      omega
    · split
      · have hlead : leadByte (0xE0 + n / 0x1000) = ([], some ⟨(0xE0 + n / 0x1000) % 0x10, 2,
            if 0xE0 + n / 0x1000 = 0xE0 then 0xA0 else 0x80,
            if 0xE0 + n / 0x1000 = 0xED then 0x9F else 0xBF⟩) := by
          rw [leadByte, if_neg (by omega), if_neg (by omega), if_pos (by omega)]
        simp only [List.cons_append, List.nil_append]
        rw [codePoints_cons, utf8Step, hlead, codePoints_cons, utf8Step_more (by split <;> split <;> omega),
          codePoints_cons, utf8Step_last (by omega)]
        simp only [List.nil_append, List.cons_append, List.cons.injEq, and_true]
        omega
      · have hlead : leadByte (0xF0 + n / 0x40000) = ([], some ⟨(0xF0 + n / 0x40000) % 0x08, 3,
            if 0xF0 + n / 0x40000 = 0xF0 then 0x90 else 0x80,
            if 0xF0 + n / 0x40000 = 0xF4 then 0x8F else 0xBF⟩) := by
          rw [leadByte, if_neg (by omega), if_neg (by omega), if_neg (by omega), if_pos (by omega)]
        simp only [List.cons_append, List.nil_append]
        rw [codePoints_cons, utf8Step, hlead, codePoints_cons, utf8Step_more (by split <;> split <;> omega),
          codePoints_cons, utf8Step_more (by omega), codePoints_cons, utf8Step_last (by omega)]
        simp only [List.nil_append, List.cons_append, List.cons.injEq, and_true]
        omega

theorem codePoints_utf8 (cs : List Char) :
    codePoints none (cs.flatMap fun c => utf8Bytes c.toNat) = cs.map Char.toNat := by
  induction cs with
  | nil => rfl
  | cons c cs ih => rw [List.flatMap_cons, codePoints_char (n := c.toNat) c.valid, ih, List.map_cons]

/-- A byte order mark at the beginning is the character. -/
theorem mark_of_prefix (hn : n.isValidChar) {s : List Nat}
    (h : [0xEF, 0xBB, 0xBF].isPrefixOf (utf8Bytes n ++ s) = true) : n = 0xFEFF := by
  have hvalid : n < 0xD800 ∨ 0xDFFF < n ∧ n < 0x110000 := hn
  rw [utf8Bytes] at h
  split at h
  · simp [List.isPrefixOf] at h
    omega
  · split at h
    · simp [List.isPrefixOf] at h
      omega
    · split at h
      · simp [List.isPrefixOf] at h
        omega
      · simp [List.isPrefixOf] at h
        omega

/-- **The decoder** gives the text back, but for a byte order mark. -/
theorem decodeUtf8_utf8 (text : String) : decodeUtf8 (utf8 text) = ofString text ∨
    ∃ c cs, text.toList = c :: cs ∧ c.toNat = 0xFEFF ∧
      decodeUtf8 (utf8 text) = cs.flatMap fun c => codeUnits c.toNat := by
  have hunits : ∀ cs : List Char, (cs.map Char.toNat).flatMap codeUnits =
      cs.flatMap fun c => codeUnits c.toNat := fun cs => List.flatMap_map ..
  rw [decodeUtf8]
  split
  · rename_i hmark
    cases hcs : text.toList with
    | nil =>
      rw [utf8, hcs] at hmark
      cases hmark
    | cons c cs =>
      rw [utf8, hcs, List.flatMap_cons] at hmark ⊢
      have hc : c.toNat = 0xFEFF := mark_of_prefix c.valid hmark
      have hdrop : (utf8Bytes c.toNat ++ cs.flatMap fun c => utf8Bytes c.toNat).drop 3 =
          cs.flatMap fun c => utf8Bytes c.toNat := by
        rw [hc]
        rfl
      exact .inr ⟨c, cs, rfl, hc, by rw [hdrop, codePoints_utf8, hunits]⟩
  · rw [utf8, codePoints_utf8, hunits]
    exact .inl rfl

theorem trim_decodeUtf8 (text : String) : trim (decodeUtf8 (utf8 text)) = trim (ofString text) := by
  obtain h | ⟨c, cs, hcs, hc, h⟩ := decodeUtf8_utf8 text
  · rw [h]
  · have hmark : ∀ d ∈ codeUnits 0xFEFF, isWhite d = true := List.all_eq_true.mp rfl
    rw [h, ofString, hcs, List.flatMap_cons, hc, trim_white_append hmark]

end Utf8

/-! ## The base64 decoder -/

section Base64Decoder

/-- The numbers that stand for bytes. -/
def sextets : List Nat → List Nat
  | a :: b :: c :: s => (a / 4) :: (a % 4 * 16 + b / 16) :: (b % 16 * 4 + c / 64) :: (c % 64) :: sextets s
  | [a, b] => [a / 4, a % 4 * 16 + b / 16, b % 16 * 4]
  | [a] => [a / 4, a % 4 * 16]
  | [] => []

/-- What fills them up. -/
def padding : List Nat → JSText
  | _ :: _ :: _ :: s => padding s
  | [_, _] => js "="
  | [_] => js "=="
  | [] => []

theorem base64Text_eq (bytes : List Nat) :
    base64Text bytes = (sextets bytes).map base64Letter ++ padding bytes := by
  induction bytes using base64Text.induct with
  | case1 a b c s ih =>
    rw [base64Text, sextets, padding, ih]
    rfl
  | case2 a b => rfl
  | case3 a => rfl
  | case4 => rfl

theorem base64Text_eq_nil {bytes : List Nat} (h : base64Text bytes = []) : bytes = [] := by
  rcases bytes with _ | ⟨a, _ | ⟨b, _ | ⟨c, s⟩⟩⟩
  · rfl
  · cases h
  · cases h
  · cases h

theorem sextets_lt {bytes : List Nat} (h : ∀ b ∈ bytes, b < 256) : ∀ n ∈ sextets bytes, n < 64 := by
  induction bytes using sextets.induct with
  | case1 a b c s ih =>
    simp only [List.forall_mem_cons] at h
    simp only [sextets, List.forall_mem_cons]
    exact ⟨by omega, by omega, by omega, by omega, ih h.2.2.2⟩
  | case2 a b =>
    simp only [List.forall_mem_cons] at h
    simp only [sextets, List.forall_mem_cons]
    exact ⟨by omega, by omega, by omega, fun n hn => by cases hn⟩
  | case3 a =>
    simp only [List.forall_mem_cons] at h
    simp only [sextets, List.forall_mem_cons]
    exact ⟨by omega, by omega, fun n hn => by cases hn⟩
  | case4 => exact fun n hn => by cases hn

theorem base64Bytes_sextets {bytes : List Nat} (h : ∀ b ∈ bytes, b < 256) :
    base64Bytes (sextets bytes) = bytes := by
  induction bytes using sextets.induct with
  | case1 a b c s ih =>
    simp only [List.forall_mem_cons] at h
    rw [sextets, base64Bytes, ih h.2.2.2]
    simp only [List.cons.injEq, and_true]
    omega
  | case2 a b =>
    simp only [List.forall_mem_cons] at h
    rw [sextets, base64Bytes]
    simp only [List.cons.injEq, and_true]
    omega
  | case3 a =>
    simp only [List.forall_mem_cons] at h
    rw [sextets, base64Bytes]
    simp only [List.cons.injEq, and_true]
    omega
  | case4 => rfl

/-- A digit is read back, and is neither white space nor a filler. -/
theorem base64Letter_spec {n : Nat} (h : n < 64) : base64Digit (base64Letter n) = some n ∧
    base64Letter n ∉ js "\t\n\x0c\r =" ∧ isWhite (base64Letter n) = false := by
  have hall : (List.range 64).all (fun n => base64Digit (base64Letter n) == some n &&
      !(js "\t\n\x0c\r =").contains (base64Letter n) && !isWhite (base64Letter n)) = true := rfl
  have hn := List.all_eq_true.mp hall n (List.mem_range.mpr h)
  simpa [and_assoc] using hn

theorem padding_cases (bytes : List Nat) :
    (padding bytes = [] ∧ (sextets bytes).length % 4 = 0) ∨
      (padding bytes = js "=" ∧ (sextets bytes).length % 4 = 3) ∨
      (padding bytes = js "==" ∧ (sextets bytes).length % 4 = 2) := by
  induction bytes using sextets.induct with
  | case1 a b c s ih =>
    have hlength : (sextets (a :: b :: c :: s)).length % 4 = (sextets s).length % 4 := by
      rw [sextets]
      simp only [List.length_cons]
      omega
    rw [hlength, padding]
    exact ih
  | case2 a b => exact .inr (.inl ⟨rfl, rfl⟩)
  | case3 a => exact .inr (.inr ⟨rfl, rfl⟩)
  | case4 => exact .inl ⟨rfl, rfl⟩

theorem dropPadding_text {d : JSText} (hd : unit '=' ∉ d) {p : JSText}
    (hp : p = [] ∧ d.length % 4 = 0 ∨ p = js "=" ∧ d.length % 4 = 3 ∨ p = js "==" ∧ d.length % 4 = 2) :
    dropPadding (d ++ p) = d := by
  have hsuffix : ∀ t, t ++ [unit '='] ≠ d := by
    rintro t rfl
    exact hd (List.mem_append_right t (List.mem_singleton_self _))
  have htwo : js "==" = [unit '='] ++ [unit '='] := rfl
  obtain ⟨rfl, hlen⟩ | ⟨rfl, hlen⟩ | ⟨rfl, hlen⟩ := hp
  · rw [List.append_nil, dropPadding, if_neg (by omega), if_neg, if_neg]
    · rw [List.isSuffixOf_iff_suffix]
      exact fun ⟨t, h⟩ => hsuffix t h
    · rw [List.isSuffixOf_iff_suffix, htwo]
      exact fun ⟨t, h⟩ => hsuffix (t ++ [unit '=']) (by rw [List.append_assoc]; exact h)
  · have hlength : (d ++ js "=").length % 4 = 0 := by
      rw [List.length_append]
      show (d.length + 1) % 4 = 0
      omega
    rw [dropPadding, if_neg (by omega), if_neg, if_pos]
    · exact List.dropLast_concat
    · exact List.isSuffixOf_iff_suffix.mpr (List.suffix_append d _)
    · rw [List.isSuffixOf_iff_suffix, htwo]
      intro ⟨t, h⟩
      rw [← List.append_assoc] at h
      exact hsuffix t (List.append_cancel_right h)
  · have hlength : (d ++ js "==").length % 4 = 0 := by
      rw [List.length_append]
      show (d.length + 2) % 4 = 0
      omega
    rw [dropPadding, if_neg (by omega), if_pos (List.isSuffixOf_iff_suffix.mpr (List.suffix_append d _)),
      htwo, ← List.append_assoc, List.dropLast_concat, List.dropLast_concat]

/-- **The decoder** gives the bytes back. -/
theorem atob_text {bytes : List Nat} (h : ∀ b ∈ bytes, b < 256) :
    atob (base64Text bytes) = some bytes := by
  have hlt := sextets_lt h
  have hdigits : ((sextets bytes).map base64Letter).mapM base64Digit = some (sextets bytes) := by
    generalize sextets bytes = ns at hlt
    induction ns with
    | nil => rfl
    | cons n ns ih =>
      obtain ⟨hn, hns⟩ := List.forall_mem_cons.mp hlt
      rw [List.map_cons, List.mapM_cons, (base64Letter_spec hn).1, ih hns]
      rfl
  have hspec : ∀ c ∈ (sextets bytes).map base64Letter, c ∉ js "\t\n\x0c\r =" := by
    intro c hc
    obtain ⟨n, hn, rfl⟩ := List.mem_map.mp hc
    exact (base64Letter_spec (hlt n hn)).2.1
  have hkept : (base64Text bytes).filter (fun c => !(js "\t\n\x0c\r ").contains c) =
      base64Text bytes := by
    rw [base64Text_eq, List.filter_append, List.filter_eq_self.mpr, List.filter_eq_self.mpr]
    · obtain ⟨hpad, -⟩ | ⟨hpad, -⟩ | ⟨hpad, -⟩ := padding_cases bytes <;> rw [hpad] <;> simp [js]
    · intro c hc
      have hnot := hspec c hc
      simp [js] at hnot ⊢
      tauto
  have hfill : unit '=' ∉ (sextets bytes).map base64Letter := fun hmem => hspec _ hmem (by simp [js, unit])
  have hdrop := dropPadding_text hfill (by simpa using padding_cases bytes)
  rw [atob, hkept, base64Text_eq, hdrop]
  have hlength : ((sextets bytes).map base64Letter).length % 4 ≠ 1 := by
    rw [List.length_map]
    obtain ⟨-, hlen⟩ | ⟨-, hlen⟩ | ⟨-, hlen⟩ := padding_cases bytes <;> omega
  rw [if_neg hlength, hdigits, Option.map_some, base64Bytes_sextets h]

end Base64Decoder

/-! ## The weight of a text -/

section Weight

/-- Two for the first byte of a letter from U+00C0 to U+00FF, one for the other first bytes and
for the second of U+00C3. White space and ASCII have none. -/
def weightOf (n : Nat) : Nat :=
  if n = 0xC3 then 2 else if n = 0x83 ∨ (0xC2 ≤ n ∧ n ≤ 0xF4) then 1 else 0

def weight : JSText → Nat
  | [] => 0
  | c :: s => weightOf c.toNat + weight s

theorem weight_append (s t : JSText) : weight (s ++ t) = weight s + weight t := by
  induction s with
  | nil => exact (Nat.zero_add _).symm
  | cons c s ih => rw [List.cons_append, weight, weight, ih, Nat.add_assoc]

theorem weight_zero {s : JSText} (h : ∀ c ∈ s, weightOf c.toNat = 0) : weight s = 0 := by
  induction s with
  | nil => rfl
  | cons c s ih =>
    obtain ⟨hc, hs⟩ := List.forall_mem_cons.mp h
    rw [weight, hc, ih hs]

theorem weightOf_white {c : UInt16} (h : isWhite c = true) : weightOf c.toNat = 0 := by
  rw [weightOf, if_neg, if_neg]
  · simp [isWhite, UInt16.le_iff_toNat_le, ← UInt16.toNat_inj] at h
    omega
  · simp [isWhite, UInt16.le_iff_toNat_le, ← UInt16.toNat_inj] at h
    omega

theorem weight_trim (s : JSText) : weight (trim s) = weight s := by
  obtain ⟨a, b, hs, ha, hb⟩ := trim_split s
  have hfront := weight_zero fun c hc => weightOf_white (ha c hc)
  have hback := weight_zero fun c hc => weightOf_white (hb c hc)
  conv_rhs => rw [hs]
  rw [weight_append, weight_append, hfront, hback]
  omega

/-- A letter outside ASCII is lighter than its bytes. -/
theorem weight_char {n : Nat} (hn : n.isValidChar) :
    weight (codeUnits n) ≤ weight ((utf8Bytes n).map UInt16.ofNat) ∧
      (0x80 ≤ n → weight (codeUnits n) < weight ((utf8Bytes n).map UInt16.ofNat)) := by
  have hvalid : n < 0xD800 ∨ 0xDFFF < n ∧ n < 0x110000 := hn
  have hnat : ∀ m, m < 0x10000 → (UInt16.ofNat m).toNat = m := fun m hm => UInt16.toNat_ofNat_of_lt' hm
  have hlead : ∀ m, 0xC2 ≤ m → m ≤ 0xF4 → 1 ≤ weightOf m := by
    intro m hle hge
    rw [weightOf]
    split_ifs <;> omega
  have hlarge : ∀ m, 0xF4 < m → weightOf m = 0 := by
    intro m hm
    rw [weightOf, if_neg (by omega), if_neg (by omega)]
  rw [codeUnits]
  by_cases h1 : n < 0x80
  · rw [utf8Bytes, if_pos h1, if_pos (by omega)]
    exact ⟨Nat.le_refl _, fun h => by omega⟩
  · by_cases h2 : n < 0x800
    · rw [utf8Bytes, if_neg h1, if_pos h2, if_pos (by omega)]
      simp only [List.map_cons, List.map_nil, weight]
      rw [hnat n (by omega), hnat _ (by omega), hnat _ (by omega)]
      simp only [weightOf]
      split_ifs <;> omega
    · by_cases h3 : n < 0x10000
      · rw [utf8Bytes, if_neg h1, if_neg h2, if_pos h3, if_pos h3]
        simp only [List.map_cons, List.map_nil, weight]
        rw [hnat n h3, hnat _ (by omega), hlarge n (by omega)]
        have hfirst := hlead (0xE0 + n / 0x1000) (by omega) (by omega)
        omega
      · rw [utf8Bytes, if_neg h1, if_neg h2, if_neg h3, if_neg h3]
        simp only [List.map_cons, List.map_nil, weight]
        rw [hnat _ (by omega), hnat _ (by omega), hnat (0xF0 + n / 0x40000) (by omega), hlarge _ (by omega),
          hlarge _ (by omega)]
        have hfirst := hlead (0xF0 + n / 0x40000) (by omega) (by omega)
        omega

/-- **A text that is as heavy as its bytes** is in ASCII. -/
theorem ascii_of_weight (text : String)
    (h : weight ((utf8 text).map UInt16.ofNat) ≤ weight (ofString text)) :
    ∀ c ∈ text.toList, c.toNat < 0x80 := by
  have hle : ∀ cs : List Char, weight (cs.flatMap fun c => codeUnits c.toNat) ≤
      weight ((cs.flatMap fun c => utf8Bytes c.toNat).map UInt16.ofNat) := by
    intro cs
    induction cs with
    | nil => exact Nat.le_refl _
    | cons c cs ih =>
      have hc := (weight_char (n := c.toNat) c.valid).1
      rw [List.flatMap_cons, List.flatMap_cons, List.map_append, weight_append, weight_append]
      omega
  intro c hc
  by_contra hlarge
  obtain ⟨a, b, hcs⟩ := List.append_of_mem hc
  have hlt := (weight_char (n := c.toNat) c.valid).2 (by omega)
  have ha := hle a
  have hb := hle b
  rw [utf8, ofString, hcs] at h
  simp only [List.flatMap_append, List.flatMap_cons, List.map_append, weight_append] at h
  omega

end Weight

/-! ## The boundary of the message -/

section Boundaries

variable (b : Boundary)

theorem Boundary.free {c : UInt16} (hc : isBoundaryUnit c = false) : c ∉ b.letters :=
  fun h => absurd (b.plain c h) (by simp [hc])

theorem Boundary.line_free {c : UInt16} (hc : isBoundaryUnit c = false) : c ∉ b.line := by
  rw [Boundary.line, List.mem_append, not_or]
  refine ⟨?_, b.free hc⟩
  intro h
  simp [js] at h
  rw [h] at hc
  cases hc

theorem isWhite_boundary {c : UInt16} (hc : isBoundaryUnit c = true) : isWhite c = false := by
  simp [isBoundaryUnit, isWord, isWhite, js, UInt16.le_iff_toNat_le, ← UInt16.toNat_inj] at hc ⊢
  omega

/-- The message says that it is one of parts. -/
theorem multipart_message (t : JSText) :
    multipartType.test (js "Content-Type: multipart/mixed; boundary=\"" ++ t) = true := by
  have hrun : multipartType.run ⟨[], js "Content-Type:" ++ (js " " ++ (js "multipart/" ++
      (js "mixed; boundary=\"" ++ t))), []⟩ some =
        some ⟨(js "multipart/").reverse ++ ((js " ").reverse ++ ((js "Content-Type:").reverse ++ [])),
          js "mixed; boundary=\"" ++ t, []⟩ := by
    simp only [multipartType, Pgp.sequence, List.foldr_cons, List.foldr_nil, run, Pgp.text]
    rw [run_letters rfl, white, run]
    refine repeatRun_greedy (by simp [js, isWhite]) ?_ ?_ ?_
    · intro c hc
      cases hc
      rfl
    · rw [run_letters rfl]
    · simp [js]
  have hat : multipartType.matchAt [] (js "Content-Type: multipart/mixed; boundary=\"" ++ t) = _ :=
    matchAt_of_run hrun
  rw [test, find, findFrom_of_matchAt hat]
  rfl

/-- Before the word `boundary` there is no letter that it begins with. -/
theorem find_boundary {r : RegExp} {s : JSText} {m : Match UInt16}
    (h : ∀ d before y, lower d ≠ lower (unit 'b') → r.matchAt before (d :: y) = none)
    (hm : r.matchAt (js "Content-Type: multipart/mixed; ").reverse s = some m) :
    r.find (js "Content-Type: multipart/mixed; " ++ s) = some (js "Content-Type: multipart/mixed; ", m) := by
  have hall : (js "Content-Type: multipart/mixed; ").all (fun d => lower d != lower (unit 'b')) = true := rfl
  rw [find, findFrom_pass, List.append_nil, findFrom_of_matchAt hm]
  · exact congrArg (fun pre => some (pre, m)) (List.append_nil _)
  · intro u d v hsplit
    refine h d _ _ (bne_iff_ne.mp (List.all_eq_true.mp hall d ?_))
    rw [hsplit]
    simp

theorem boundary_message (t : JSText) :
    (Pgp.text "boundary=").test (js "Content-Type: multipart/mixed; boundary=\"" ++ t) = true := by
  have hrun : (Pgp.text "boundary=").run ⟨(js "Content-Type: multipart/mixed; ").reverse,
      js "boundary=" ++ (js "\"" ++ t), []⟩ some = some ⟨_, js "\"" ++ t, []⟩ := run_letters rfl _ _ _ _
  have hother : ∀ d before y, lower d ≠ lower (unit 'b') →
      (Pgp.text "boundary=").matchAt before (d :: y) = none :=
    fun d before y hd => congrArg (Option.map _) (run_letters_ne hd _ _ _ _ _)
  have hfind := find_boundary hother (matchAt_of_run hrun)
  rw [← List.append_assoc] at hfind
  have htest := congrArg Option.isSome hfind
  exact htest

theorem unquote_boundary : unquote b.letters = b.letters := by
  have hnone : ∀ a t, b.letters = a ++ t →
      (alt (seq atStart (oneOf "\"'")) (seq (oneOf "\"'") atEnd) : RegExp).matchAt a.reverse t = none := by
    intro a t hsplit
    cases t with
    | nil => cases h : a.reverse.head? <;> simp [matchAt, run, atStart, oneOf, h]
    | cons d t =>
      have hd : isBoundaryUnit d = true := b.plain d (by rw [hsplit]; simp)
      have hplain : (js "\"'").contains d = false := by
        refine Bool.eq_false_iff.mpr fun hmem => ?_
        simp [js] at hmem
        obtain rfl | rfl := hmem <;> cases hd
      simp only [matchAt, run, atStart, oneOf, hplain]
      cases a.reverse.head? <;> rfl
  rw [unquote, replaceAll_of_none hnone]
  exact trim_of_free fun c hc => isWhite_boundary (b.plain c hc)

theorem quotedBoundary_run (before t : JSText) :
    quotedBoundary.run ⟨before, js "boundary=\"" ++ (b.letters ++ (js "\"" ++ t)), []⟩ some =
      some ⟨unit '"' :: (b.letters.reverse ++ ((js "boundary=\"").reverse ++ before)), t,
        [(1, b.letters)]⟩ := by
  obtain ⟨c, l, hl⟩ := List.exists_cons_of_ne_nil b.ne_nil
  have hclass : ∀ d ∈ c :: l, (!(js "\"").contains d) = true := by
    intro d hd
    have hplain := b.plain d (hl ▸ hd)
    rw [Bool.not_eq_true']
    refine Bool.eq_false_iff.mpr fun hmem => ?_
    simp [js] at hmem
    rw [hmem] at hplain
    cases hplain
  rw [List.forall_mem_cons] at hclass
  simp only [quotedBoundary, Pgp.sequence, List.foldr_cons, List.foldr_nil, run, Pgp.text, plus, noneOf, hl]
  rw [run_letters rfl]
  simp only [List.cons_append, hclass.1, if_true]
  refine repeatRun_greedy hclass.2 ?_ ?_ ?_
  · intro d hd
    cases hd
    rfl
  · have hlength : (c :: (l ++ (js "\"" ++ t))).length - (js "\"" ++ t).length = l.length + 1 := by
      simp
      omega
    have htake : (c :: (l ++ (js "\"" ++ t))).take (l.length + 1) = c :: l := by simp
    simp only [hlength, htake, oneOf, run]
    rw [List.reverse_cons, List.append_assoc]
    rfl
  · simp

theorem boundaryOf_message (t : JSText) :
    boundaryOf (js "Content-Type: multipart/mixed; boundary=\"" ++ (b.letters ++ (js "\"" ++ t))) =
      some b.letters := by
  have hother : ∀ d before y, lower d ≠ lower (unit 'b') → quotedBoundary.matchAt before (d :: y) = none :=
    fun d before y hd => matchAt_letters_ne hd _ _ _ _
  have hfind := find_boundary hother (matchAt_of_run (quotedBoundary_run b _ t))
  have hfront : js "Content-Type: multipart/mixed; boundary=\"" =
      js "Content-Type: multipart/mixed; " ++ js "boundary=\"" := rfl
  have hgroup : groupOf quotedBoundary 1 (js "Content-Type: multipart/mixed; boundary=\"" ++
      (b.letters ++ (js "\"" ++ t))) = some b.letters := by
    rw [groupOf, hfront, List.append_assoc, hfind]
    rfl
  rw [boundaryOf, hgroup, Option.some_or, Option.map_some, unquote_boundary]
  exact if_pos (by simpa using b.ne_nil)

end Boundaries

/-! ## The parts of the message -/

section Splitting

variable {sep x y : JSText}

theorem splitFrom_drop (sep : JSText) (skip : Nat) (s : JSText) :
    splitFrom sep skip s = splitFrom sep 0 (s.drop skip) := by
  induction s generalizing skip with
  | nil => cases skip <;> rfl
  | cons c s ih =>
    cases skip with
    | zero => rfl
    | succ skip => exact ih skip

/-- A text is cut at the first separator. -/
theorem splitFrom_append (hsep : sep ≠ [])
    (h : ∀ c d, x = c ++ d → d ≠ [] → ¬sep <+: d ++ (sep ++ y)) :
    splitFrom sep 0 (x ++ (sep ++ y)) = x :: splitFrom sep 0 y := by
  induction x with
  | nil =>
    obtain ⟨c, w, rfl⟩ := List.exists_cons_of_ne_nil hsep
    have hfirst : (c :: w).isPrefixOf (c :: (w ++ y)) = true :=
      List.isPrefixOf_iff_prefix.mpr (List.prefix_append (c :: w) y)
    rw [List.nil_append, List.cons_append, splitFrom, if_pos hfirst, splitFrom_drop, List.length_cons,
      Nat.add_sub_cancel, List.drop_left]
  | cons c x ih =>
    have hfirst : ¬sep.isPrefixOf (c :: (x ++ (sep ++ y))) = true := fun hpre =>
      h [] (c :: x) rfl (List.cons_ne_nil _ _) (List.isPrefixOf_iff_prefix.mp hpre)
    rw [List.cons_append, splitFrom, if_neg hfirst, ih fun a d hx => h (c :: a) d (congrArg (c :: ·) hx)]
    rfl

theorem splitFrom_free (h : ¬sep <:+: x) : splitFrom sep 0 x = [x] := by
  induction x with
  | nil => rfl
  | cons c x ih =>
    rw [List.infix_cons_iff, not_or] at h
    rw [splitFrom, if_neg fun hpre => h.1 (List.isPrefixOf_iff_prefix.mp hpre), ih h.2]
    rfl

/-- A line break that the separator does not have stands between a piece and the separator. -/
theorem splitFrom_line {c : UInt16} (hsep : sep ≠ []) (hc : c ∉ sep) (h : ¬sep <:+: x) :
    splitFrom sep 0 (x ++ c :: (sep ++ y)) = (x ++ [c]) :: splitFrom sep 0 y := by
  have hwhole : x ++ c :: (sep ++ y) = (x ++ [c]) ++ (sep ++ y) := by simp
  rw [hwhole, splitFrom_append hsep]
  intro a d hsplit hd hpre
  rcases List.prefix_or_prefix_of_prefix hpre (List.prefix_append d (sep ++ y)) with hle | hle
  · -- the separator would stand in the piece
    have hin : sep <:+: x ++ c :: [] := hle.isInfix.trans (hsplit ▸ (List.suffix_append a d).isInfix)
    rw [Pattern.infix_cut hc] at hin
    obtain hin | hin := hin
    · exact h hin
    · exact hsep (List.eq_nil_of_infix_nil hin)
  · -- the separator would have the line break
    have hlast : c ∈ d := by
      obtain ⟨d', e, rfl⟩ : ∃ d' e, d = d' ++ [e] :=
        ⟨d.dropLast, d.getLast hd, (List.dropLast_append_getLast hd).symm⟩
      rw [← List.append_assoc] at hsplit
      obtain ⟨-, he⟩ := List.append_inj' hsplit rfl
      rw [List.cons.inj he |>.1]
      simp
    exact hc (hle.subset hlast)

end Splitting

section Parts

variable (b : Boundary) {body : JSText}

/-- The separator begins with two hyphens. -/
theorem Boundary.not_infix {x : JSText} (h : ¬js "--" <:+: x) : ¬b.line <:+: x :=
  fun hin => h ((List.prefix_append (js "--") b.letters).isInfix.trans hin)

theorem Boundary.line_ne_nil : b.line ≠ [] := List.cons_ne_nil _ _

/-- What stands before the first separator. -/
def preamble : JSText := js "Content-Type: multipart/mixed; boundary=\"" ++ (b.letters ++ js "\"\r\n\r\n")

/-- The part. -/
def part (e : TransferEncoding) (body : JSText) : JSText :=
  js "\r\n" ++ (partHeader e ++ (js "\r\n\r\n" ++ (body ++ js "\r\n")))

/-- **The parts**: the header of the message, the part, and the end. -/
theorem split_message (e : TransferEncoding) (hfree : ¬b.line <:+: body) :
    splitFrom b.line 0 (message b e body) = [preamble b, part e body, js "--\r\n"] := by
  have hfeed : unit '\n' ∉ b.line := b.line_free rfl
  have hquote : unit '"' ∉ b.line := b.line_free rfl
  have hreturn : unit '\r' ∉ b.line := b.line_free rfl
  have hshort : ¬b.line <:+: b.letters := by
    intro hin
    have hle := hin.length_le
    have hdash : (js "--").length = 2 := rfl
    rw [Boundary.line, List.length_append, hdash] at hle
    omega
  have hfirst : ¬b.line <:+: js "Content-Type: multipart/mixed; boundary=" ++
      unit '"' :: (b.letters ++ unit '"' :: js "\r\n\r") := by
    rw [Pattern.infix_cut hquote, Pattern.infix_cut hquote, not_or, not_or]
    exact ⟨b.not_infix (by decide), hshort, b.not_infix (by decide)⟩
  have hsecond : ¬b.line <:+: (js "\r\n" ++ (partHeader e ++ js "\r\n\r")) ++
      unit '\n' :: (body ++ unit '\r' :: []) := by
    rw [Pattern.infix_cut hfeed, Pattern.infix_cut hreturn, not_or, not_or]
    refine ⟨b.not_infix ?_, hfree, fun h => b.line_ne_nil (List.eq_nil_of_infix_nil h)⟩
    cases e <;> set_option maxRecDepth 1000 in decide
  have hlast : ¬b.line <:+: js "--" ++ unit '\r' :: js "\n" := by
    have hlength : 2 < b.line.length := by
      have hpos := List.length_pos_iff.mpr b.ne_nil
      rw [Boundary.line, List.length_append]
      simp [js]
      exact hpos
    rw [Pattern.infix_cut hreturn]
    rintro (h | h)
    · exact absurd h.length_le (by simp [js]; omega)
    · exact absurd h.length_le (by simp [js]; omega)
  -- the texts of the message, letter by letter at their ends
  have hopen : js "Content-Type: multipart/mixed; boundary=\"" =
      js "Content-Type: multipart/mixed; boundary=" ++ [unit '"'] := rfl
  have hclose : js "\"\r\n\r\n" = unit '"' :: (js "\r\n\r" ++ [unit '\n']) := rfl
  have hblank : js "\r\n\r\n" = js "\r\n\r" ++ [unit '\n'] := rfl
  have hend : js "--\r\n" = js "--" ++ (unit '\r' :: js "\n") := rfl
  have hmessage : message b e body = (js "Content-Type: multipart/mixed; boundary=" ++
      unit '"' :: (b.letters ++ unit '"' :: js "\r\n\r")) ++ unit '\n' :: (b.line ++
        (((js "\r\n" ++ (partHeader e ++ js "\r\n\r")) ++ unit '\n' :: (body ++ unit '\r' :: [])) ++
          unit '\n' :: (b.line ++ (js "--" ++ unit '\r' :: js "\n")))) := by
    have hline : ∀ z, js "\r\n" ++ z = unit '\r' :: unit '\n' :: z := fun z => rfl
    simp only [message, hopen, hclose, hblank, hend, hline, List.append_assoc, List.cons_append,
      List.nil_append]
  rw [hmessage, splitFrom_line b.line_ne_nil hfeed hfirst, splitFrom_line b.line_ne_nil hfeed hsecond,
    splitFrom_free hlast]
  have hline : js "\r\n" = [unit '\r', unit '\n'] := rfl
  simp only [preamble, part, hopen, hclose, hblank, hend, hline, List.append_assoc, List.cons_append,
    List.nil_append]

/-! ### One part after the other -/

/-- A text without white space at its ends. -/
theorem trim_self {c : UInt16} {s : JSText} (hc : isWhite c = false)
    (hlast : ∀ d ∈ (c :: s).getLast?, isWhite d = false) : trim (c :: s) = c :: s := by
  rw [trim, List.dropWhile_cons_of_neg (by simp [hc]), List.rdropWhile_eq_self_iff]
  intro hne
  simp [hlast _ (List.getLast?_eq_getLast_of_ne_nil hne)]

theorem blankLine_free {s : JSText} (h : unit '\n' ∉ s) : blankLine.find s = none := by
  refine findFrom_none fun a t hs => ?_
  cases hat : blankLine.matchAt (a.reverse ++ []) t with
  | none => rfl
  | some m =>
    -- a blank line has a line feed
    obtain ⟨w, hw, ht⟩ := matchAt_text hat
    obtain ⟨u, ⟨u₁, -, u₂, ⟨c, hc, rfl⟩, rfl⟩, v, -, rfl⟩ := Language.mem_mul.mp hw
    have hfeed : c = unit '\n' := by simpa [js, unit] using hc
    refine absurd ?_ h
    rw [hs, ht, hfeed]
    simp

theorem partOf_preamble : partOf (preamble b) = none := by
  have hfree : unit '\n' ∉ trim (preamble b) := by
    have hwhole : preamble b = (js "Content-Type: multipart/mixed; boundary=" ++ (unit '"' ::
        (b.letters ++ [unit '"']))) ++ js "\r\n\r\n" := by
      have hopen : js "Content-Type: multipart/mixed; boundary=\"" =
          js "Content-Type: multipart/mixed; boundary=" ++ [unit '"'] := rfl
      have hclose : js "\"\r\n\r\n" = [unit '"'] ++ js "\r\n\r\n" := rfl
      simp only [preamble, hopen, hclose, List.append_assoc, List.cons_append, List.nil_append]
    obtain ⟨x, y, hsplit, -, -⟩ := trim_split (js "Content-Type: multipart/mixed; boundary=" ++ (unit '"' ::
        (b.letters ++ [unit '"'])))
    rw [hwhole, trim_append_white (by simp [js, isWhite])]
    intro hmem
    have hin : unit '\n' ∈ js "Content-Type: multipart/mixed; boundary=" ++ (unit '"' ::
        (b.letters ++ [unit '"'])) := by
      rw [hsplit]
      simp [hmem]
    simp only [List.mem_append, List.mem_cons, List.not_mem_nil, or_false] at hin
    obtain h | h | h | h := hin
    · exact absurd h (by decide)
    · exact absurd h (by decide)
    · exact b.free rfl h
    · exact absurd h (by decide)
  rw [partOf, blankLine_free hfree]
  split <;> rfl

theorem partOf_end : partOf (js "--\r\n") = none := by
  decide

/-- A part that has nothing but white space in it. -/
theorem partOf_blank (e : TransferEncoding) (hbody : trim body = []) : partOf (part e body) = none := by
  have hwhite : ∀ c ∈ body, isWhite c = true := by
    obtain ⟨x, y, hs, hx, hy⟩ := trim_split body
    rw [hbody, List.nil_append] at hs
    intro c hc
    rw [hs] at hc
    obtain hc | hc := List.mem_append.mp hc
    · exact hx c hc
    · exact hy c hc
  have hrest : ∀ c ∈ js "\r\n\r\n" ++ (body ++ js "\r\n"), isWhite c = true := by
    have hblank : ∀ c ∈ js "\r\n\r\n", isWhite c = true := by simp [js, isWhite]
    have hline : ∀ c ∈ js "\r\n", isWhite c = true := by simp [js, isWhite]
    exact List.forall_mem_append.mpr ⟨hblank, List.forall_mem_append.mpr ⟨hwhite, hline⟩⟩
  have htrim : trim (part e body) = trim (partHeader e) := by
    rw [part, trim_white_append (by simp [js, isWhite]), trim_append_white hrest]
  rw [partOf, htrim]
  cases e <;> decide

/-- The part has its header and its trimmed body. -/
theorem partOf_part (e : TransferEncoding) (hbody : trim body ≠ []) :
    partOf (part e body) = some (partHeader e, trim body) := by
  obtain ⟨x, y, hs, hx, hy⟩ := trim_split body
  have hcore : trim (trim body) = trim body := by
    conv_rhs => rw [hs, trim_white_append hx, trim_append_white hy]
  have hheader : ∃ t, partHeader e = unit 'C' :: t := ⟨_, rfl⟩
  obtain ⟨t, ht⟩ := hheader
  have htrim : trim (part e body) = partHeader e ++ js "\r\n\r\n" ++ (x ++ trim body) := by
    have hends : part e body = js "\r\n" ++ ((partHeader e ++ js "\r\n\r\n" ++ (x ++ trim body)) ++
        (y ++ js "\r\n")) := by
      rw [part]
      conv_lhs => rw [hs]
      simp only [List.append_assoc]
    have hline : ∀ c ∈ js "\r\n", isWhite c = true := by simp [js, isWhite]
    have hback : ∀ c ∈ y ++ js "\r\n", isWhite c = true := List.forall_mem_append.mpr ⟨hy, hline⟩
    rw [hends, trim_white_append (by simp [js, isWhite]), trim_append_white hback, ht, List.cons_append,
      List.cons_append, trim_self rfl]
    intro d hd
    rw [← List.cons_append, ← List.cons_append, ← List.append_assoc,
      List.getLast?_append_of_ne_nil _ hbody] at hd
    exact trim_last body d hd
  have hfind : (blankLine.find (partHeader e ++ js "\r\n\r\n" ++ (x ++ trim body))).map
      (fun p => (p.1, p.2.rest)) = some (partHeader e, x ++ trim body) := by
    cases e <;> rfl
  obtain ⟨⟨pre, m⟩, hfind, hpre⟩ := Option.map_eq_some_iff.mp hfind
  obtain rfl : pre = partHeader e := (Prod.mk.inj hpre).1
  have hdrop : (partHeader e ++ js "\r\n\r\n" ++ (x ++ trim body)).drop (partHeader e).length =
      js "\r\n\r\n" ++ (x ++ trim body) := by
    rw [List.append_assoc, List.drop_left]
  have hreplace : (seq atStart blankLine).replace (fun _ => []) (js "\r\n\r\n" ++ (x ++ trim body)) =
      x ++ trim body := rfl
  have hpart : ¬(partHeader e ++ js "\r\n\r\n" ++ (x ++ trim body) = [] ||
      partHeader e ++ js "\r\n\r\n" ++ (x ++ trim body) = js "--" ||
      (js "This is an OpenPGP").isPrefixOf (partHeader e ++ js "\r\n\r\n" ++ (x ++ trim body))) = true := by
    rw [ht]
    simp [js, unit, List.isPrefixOf]
  rw [partOf, htrim, if_neg hpart, hfind]
  dsimp only
  rw [hdrop, hreplace, trim_white_append hx, hcore, if_neg hbody]


end Parts

/-! ## What is taken out of the message -/

section Extraction

variable {U : Unicode} (hU : ∀ s : JSText, (∀ c ∈ s, c < 128) → U.toLowerCase s = s.map lower)
variable (b : Boundary) (e : TransferEncoding) {body : JSText}

/-- What a decoder makes of a body. -/
def TransferEncoding.decode : TransferEncoding → JSText → JSText
  | quotedPrintable, body => decodeQuoted body
  | base64, body => ((atob (removeWhite body)).map decodeUtf8).getD body

include hU in
theorem contentTypeOf_part : contentTypeOf U (partHeader e) = js "text/plain" := by
  have hgroup : groupOf typeHeader 1 (partHeader e) = some (js "text/plain") := by
    cases e <;> decide
  have htrim : trim (js "text/plain") = js "text/plain" := by decide
  have hascii : ∀ c ∈ js "text/plain", c < 128 := by simp [js]
  rw [contentTypeOf, hgroup, Option.map_some, htrim, hU _ hascii]
  rfl

include hU in
theorem decodeBody_name (t : JSText) : decodeBody U t (some e.name) = e.decode t := by
  have hlower : U.toLowerCase e.name = e.name := by
    have hascii : ∀ c ∈ e.name, c < 128 := by cases e <;> simp [TransferEncoding.name, js]
    rw [hU _ hascii]
    cases e <;> rfl
  have htrim : trim e.name = e.name := by cases e <;> decide
  rw [decodeBody, Option.filter_some, if_pos (by cases e <;> rfl)]
  dsimp only
  rw [hlower, htrim]
  cases e
  · rw [if_neg (by decide), if_pos (.inl rfl)]
    rfl
  · exact if_pos rfl

include hU in
/-- **The parts of the message**: one text, when it is not blank. -/
theorem processParts_message (n : Nat) (hfree : ¬b.line <:+: body) :
    processParts U (n + 1) ⟨[], none, none⟩ (message b e body) b.letters =
      ⟨[], none, if trim body = [] then none else some (e.decode (trim body))⟩ := by
  have hinner : innerBoundary U (partHeader e) = none := by
    rw [innerBoundary, contentTypeOf_part hU]
    exact if_neg (by decide)
  have hencoding : (groupOf encodingHeader 1 (partHeader e)).map trim = some e.name := by
    cases e <;> decide
  rw [processParts, ← Boundary.line, split_message b e hfree]
  simp only [List.foldl_cons, List.foldl_nil, processPart, partOf_preamble, partOf_end]
  by_cases hbody : trim body = []
  · rw [partOf_blank e hbody, if_pos hbody]
  · rw [partOf_part e hbody, if_neg hbody]
    dsimp only
    rw [hinner]
    dsimp only
    rw [processLeaf, contentTypeOf_part hU, hencoding, decodeBody_name hU]
    rfl

theorem boundaryOf_whole : boundaryOf (message b e body) = some b.letters := by
  have hclose : js "\"\r\n\r\n" = js "\"" ++ js "\r\n\r\n" := rfl
  rw [message, hclose, List.append_assoc]
  exact boundaryOf_message b _

include hU in
/-- The text of a message that has some. -/
theorem extract_part (hfree : ¬b.line <:+: body) (hbody : trim body ≠ [])
    (htext : e.decode (trim body) ≠ []) :
    extractTextFromMime U (message b e body) = some (e.decode (trim body)) := by
  have htest : ¬(!multipartType.test (message b e body) ||
      !(Pgp.text "boundary=").test (message b e body)) = true := by
    rw [message, multipart_message, boundary_message]
    decide
  have hfull : falsy (some (e.decode (trim body))) = false := by
    simpa [falsy] using htext
  rw [extractTextFromMime, if_neg htest, boundaryOf_whole]
  rw [Option.bind_some, processParts_message hU b e _ hfree, if_neg hbody, textOfParts]
  rw [hfull]
  rfl

/-! ### A blank part -/

theorem indexOfText_le (sep x y : JSText) :
    ∃ k ≤ x.length, indexOfText sep (x ++ (sep ++ y)) = some k := by
  induction x with
  | nil =>
    cases sep with
    | nil => cases y <;> exact ⟨0, Nat.le_refl 0, rfl⟩
    | cons c sep =>
      refine ⟨0, Nat.le_refl 0, ?_⟩
      have hpre : (c :: sep).isPrefixOf (c :: (sep ++ y)) = true :=
        List.isPrefixOf_iff_prefix.mpr (List.prefix_append (c :: sep) y)
      exact if_pos hpre
  | cons c x ih =>
    obtain ⟨k, hk, hindex⟩ := ih
    by_cases hpre : sep.isPrefixOf (c :: (x ++ (sep ++ y))) = true
    · exact ⟨0, Nat.zero_le _, if_pos hpre⟩
    · refine ⟨k + 1, Nat.succ_le_succ hk, ?_⟩
      rw [List.cons_append, indexOfText, if_neg hpre, hindex]
      rfl

/-- What stands before the header of the part. -/
def beforePart : JSText := preamble b ++ (b.line ++ js "\r\n")

theorem message_eq : message b e body = beforePart b ++ (partHeader e ++ (js "\r\n\r\n" ++
    (body ++ ((js "\r\n--" ++ b.letters) ++ js "--\r\n")))) := by
  have hline : js "\r\n--" = js "\r\n" ++ js "--" := rfl
  simp only [message, beforePart, preamble, Boundary.line, hline, List.append_assoc]

/-- The pieces of the message between its colons. -/
theorem message_colons : message b e body = js "Content-Type" ++ unit ':' ::
    ((js " multipart/mixed; boundary=\"" ++ (b.letters ++ (js "\"\r\n\r\n" ++ (b.line ++
      (js "\r\n" ++ js "Content-Type"))))) ++ unit ':' ::
        (js " text/plain; charset=utf-8\r\nContent-Transfer-Encoding" ++ unit ':' ::
          (js " " ++ (e.name ++ (js "\r\n\r\n" ++ (body ++ (js "\r\n" ++ (b.line ++ js "--\r\n")))))))) := by
  have hfirst : js "Content-Type: multipart/mixed; boundary=\"" =
      js "Content-Type" ++ unit ':' :: js " multipart/mixed; boundary=\"" := rfl
  have hsecond : js "Content-Type: text/plain; charset=utf-8\r\nContent-Transfer-Encoding: " =
      js "Content-Type" ++ unit ':' :: (js " text/plain; charset=utf-8\r\nContent-Transfer-Encoding" ++
        unit ':' :: js " ") := rfl
  simp only [message, partHeader, hfirst, hsecond, List.append_assoc, List.cons_append]

theorem lower_colon {d : UInt16} (h : lower d = unit ':') : d = unit ':' := by
  rw [lower] at h
  split at h
  · rename_i hupper
    have hd : d = unit ':' - 32 := by rw [← h, UInt16.add_sub_cancel]
    rw [hd] at hupper
    cases hupper
  · exact h

/-- The value of the first header is none of a text. -/
theorem not_multipart {w : JSText} (hw : ∀ c ∈ w, isWhite c = true) {x : UInt16} (hx : lower x = unit 't')
    {y z : JSText} : w ++ x :: y ≠ (js " multipart/mixed; boundary=\"" ++ z) := by
  intro h
  rcases w with _ | ⟨c, _ | ⟨c', w⟩⟩
  · rw [(List.cons.inj h).1] at hx
    cases hx
  · rw [(List.cons.inj (List.cons.inj h).2).1] at hx
    cases hx
  · have hwhite := hw c' (by simp)
    rw [(List.cons.inj (List.cons.inj h).2).1] at hwhite
    cases hwhite

/-- What the header of a text begins with. -/
theorem header_form {type : String} (htype : ∃ w, (js type).map lower = unit 't' :: w)
    {before t : JSText} {m : Match UInt16} (hat : (sequence [Pgp.text "Content-Type:", white, Pgp.text type,
      star true (noneOf "\r\n"), newline]).matchAt before t = some m) :
    ∃ v w x y, t = v ++ unit ':' :: (w ++ x :: y) ∧ v.map lower = js "content-type" ∧
      (∀ c ∈ w, isWhite c = true) ∧ lower x = unit 't' := by
  obtain ⟨w, hw, ht⟩ := matchAt_text hat
  obtain ⟨w₁, hw₁, y₁, hy₁, rfl⟩ := Language.mem_mul.mp hw
  obtain ⟨w₂, hw₂, y₂, hy₂, rfl⟩ := Language.mem_mul.mp hy₁
  obtain ⟨w₃, hw₃, y, -, rfl⟩ := Language.mem_mul.mp hy₂
  have hname : w₁.map lower = js "content-type" ++ js ":" := mem_language_letters hw₁
  have hvalue : w₃.map lower = (js type).map lower := mem_language_letters hw₃
  obtain ⟨v, l, rfl, hv, hl⟩ := List.map_eq_append_iff.mp hname
  obtain ⟨d, l, rfl, hd, hl⟩ := List.map_eq_cons_iff.mp hl
  obtain rfl := List.map_eq_nil_iff.mp hl
  obtain rfl := lower_colon hd
  obtain ⟨q, hq⟩ := htype
  obtain ⟨x, w₃, rfl, hx, -⟩ := List.map_eq_cons_iff.mp (hvalue.trans hq)
  refine ⟨v, w₂, x, w₃ ++ (y ++ m.rest), ?_, hv, mem_language_star hw₂, hx⟩
  rw [ht]
  simp only [List.append_assoc, List.cons_append, List.nil_append]

/-- The only header of a text is the one of the part. -/
theorem header_place (hbody : unit ':' ∉ body) {a v w y : JSText} {x : UInt16}
    (hsplit : message b e body = a ++ (v ++ unit ':' :: (w ++ x :: y)))
    (hv : v.map lower = js "content-type") (hw : ∀ c ∈ w, isWhite c = true) (hx : lower x = unit 't') :
    a = beforePart b := by
  have hfirst : unit ':' ∉ js "Content-Type" := by decide
  have hsecond : unit ':' ∉ js " multipart/mixed; boundary=\"" ++ (b.letters ++ (js "\"\r\n\r\n" ++
      (b.line ++ (js "\r\n" ++ js "Content-Type")))) := by
    simp only [List.mem_append, not_or]
    exact ⟨by decide, b.free rfl, by decide, b.line_free rfl, by decide, by decide⟩
  have hthird : unit ':' ∉ js " text/plain; charset=utf-8\r\nContent-Transfer-Encoding" := by decide
  have hlast : unit ':' ∉ js " " ++ (e.name ++ (js "\r\n\r\n" ++ (body ++ (js "\r\n" ++
      (b.line ++ js "--\r\n"))))) := by
    simp only [List.mem_append, not_or]
    exact ⟨by decide, by cases e <;> decide, by decide, hbody, by decide, b.line_free rfl, by decide⟩
  rw [message_colons] at hsplit
  have hplace := hsplit.symm
  rw [← List.append_assoc a] at hplace
  obtain ⟨-, hrest⟩ | ⟨p, hp, hplace⟩ := Pattern.cut_cases hfirst hplace
  · rw [List.append_assoc] at hrest
    exact absurd hrest (not_multipart hw hx)
  · obtain ⟨rfl, -⟩ | ⟨p, rfl, hafter⟩ := Pattern.cut_cases hsecond hplace
    · have hwhole : a ++ v = beforePart b ++ js "Content-Type" := by
        have hopen : js "Content-Type: multipart/mixed; boundary=\"" =
            js "Content-Type" ++ unit ':' :: js " multipart/mixed; boundary=\"" := rfl
        rw [hp]
        simp only [beforePart, preamble, hopen, List.append_assoc, List.cons_append]
      have hname : (js "content-type").length = 12 ∧ (js "Content-Type").length = 12 := ⟨rfl, rfl⟩
      have hlength : v.length = (js "Content-Type").length := by
        rw [hname.2, ← hname.1, ← hv, List.length_map]
      exact (List.append_inj' hwhole hlength).1
    · obtain ⟨rfl, -⟩ | ⟨p, rfl, hend⟩ := Pattern.cut_cases hthird hafter
      · -- the name of the other header ends with another letter
        obtain ⟨v, l, rfl, -, hl⟩ := List.map_eq_append_iff.mp
          (show v.map lower = js "content-typ" ++ js "e" from hv)
        obtain ⟨d, l, rfl, hd, hl⟩ := List.map_eq_cons_iff.mp hl
        obtain rfl := List.map_eq_nil_iff.mp hl
        have hend : js " text/plain; charset=utf-8\r\nContent-Transfer-Encoding" =
            js " text/plain; charset=utf-8\r\nContent-Transfer-Encodin" ++ [unit 'g'] := rfl
        have hlast := congrArg List.getLast? hp
        rw [hend, ← List.append_assoc a, List.getLast?_concat, List.getLast?_append_cons, List.getLast?_cons,
          List.getLast?_append_cons, List.getLast?_cons, List.getLast?_concat] at hlast
        obtain rfl : d = unit 'g' := Option.some.inj hlast
        exact absurd hd (by decide)
      · exact absurd (hend ▸ List.mem_append_right p List.mem_cons_self) hlast

theorem bodyAfter_blank (hbody : ∀ c ∈ body, isWhite c = true) :
    bodyAfter U (message b e body) b.letters (beforePart b).length = none := by
  have hdrop : (message b e body).drop (beforePart b).length = partHeader e ++ (js "\r\n\r\n" ++
      (body ++ ((js "\r\n--" ++ b.letters) ++ js "--\r\n"))) := by
    rw [message_eq, List.drop_left]
  have hblank : indexFrom (js "\r\n\r\n") (beforePart b).length (message b e body) =
      some ((partHeader e).length + (beforePart b).length) := by
    rw [indexFrom, hdrop]
    cases e <;> rfl
  have hrest : (message b e body).drop ((partHeader e).length + (beforePart b).length + 4) =
      body ++ ((js "\r\n--" ++ b.letters) ++ js "--\r\n") := by
    have hfour : js "\r\n\r\n" = [13, 10, 13, 10] := rfl
    rw [Nat.add_right_comm, ← Nat.add_comm (beforePart b).length, ← List.drop_drop, hdrop,
      ← List.drop_drop, List.drop_left, hfour]
    rfl
  obtain ⟨k, hk, hindex⟩ := indexOfText_le (js "\r\n--" ++ b.letters) body (js "--\r\n")
  have hend : indexFrom (js "\r\n--" ++ b.letters) ((partHeader e).length + (beforePart b).length + 4)
      (message b e body) = some (k + ((partHeader e).length + (beforePart b).length + 4)) := by
    rw [indexFrom, hrest, hindex]
    rfl
  rw [bodyAfter, hblank]
  simp only [Option.map_some, Option.some_or]
  rw [hend]
  have hslice : trim ((body ++ ((js "\r\n--" ++ b.letters) ++ js "--\r\n")).take k) = [] := by
    rw [List.take_append_of_le_length hk]
    have hwhite : ∀ c ∈ body.take k, isWhite c = true := fun c hc => hbody c (List.mem_of_mem_take hc)
    have htrim := trim_white_append hwhite []
    rwa [List.append_nil] at htrim
  simp only [Option.some_or, Option.getD_some, Nat.add_sub_cancel, hrest, hslice]
  rfl

theorem tryExtract_blank {type : String} (htype : ∃ w, (js type).map lower = unit 't' :: w)
    (hbody : ∀ c ∈ body, isWhite c = true) : tryExtract U type (message b e body) b.letters = none := by
  rw [tryExtract, List.findSome?_eq_none_iff]
  rintro ⟨i, m⟩ him
  obtain ⟨a, t, hsplit, hi, hat⟩ := mem_matchesFrom him
  obtain ⟨v, w, x, y, rfl, hv, hw, hx⟩ := header_form htype hat
  have hcolon : unit ':' ∉ body := fun h => absurd (hbody _ h) (by decide)
  obtain rfl := header_place b e hcolon hsplit hv hw hx
  have hplace : i = (beforePart b).length := by
    rw [Nat.zero_add] at hi
    exact hi
  rw [hplace]
  exact bodyAfter_blank b e hbody

include hU in
/-- There is no text in a message with a blank part. -/
theorem extract_blank (hfree : ¬b.line <:+: body) (hbody : trim body = []) :
    extractTextFromMime U (message b e body) = none := by
  have hwhite : ∀ c ∈ body, isWhite c = true := by
    obtain ⟨x, y, hs, hx, hy⟩ := trim_split body
    rw [hbody, List.nil_append] at hs
    rw [hs]
    exact List.forall_mem_append.mpr ⟨hx, hy⟩
  have htest : ¬(!multipartType.test (message b e body) ||
      !(Pgp.text "boundary=").test (message b e body)) = true := by
    rw [message, multipart_message, boundary_message]
    decide
  rw [extractTextFromMime, if_neg htest, boundaryOf_whole, Option.bind_some,
    processParts_message hU b e _ hfree, if_pos hbody, textOfParts]
  have hhtml : ∃ w, (js "text/html").map lower = unit 't' :: w := ⟨_, rfl⟩
  have hplain : ∃ w, (js "text/plain").map lower = unit 't' :: w := ⟨_, rfl⟩
  rw [tryExtract_blank b e hhtml hwhite, tryExtract_blank b e hplain hwhite]
  rfl

end Extraction

/-! ## When the encodings agree -/

section Agreement

variable {U : Unicode} (hU : ∀ s : JSText, (∀ c ∈ s, c < 128) → U.toLowerCase s = s.map lower)
variable (b : Boundary)

theorem utf8_lt (text : String) : ∀ n ∈ utf8 text, n < 256 := by
  intro n hn
  obtain ⟨c, -, hn⟩ := List.mem_flatMap.mp hn
  have hvalid : c.toNat < 0xD800 ∨ 0xDFFF < c.toNat ∧ c.toNat < 0x110000 := c.valid
  rw [utf8Bytes] at hn
  split at hn
  · obtain rfl := List.mem_singleton.mp hn
    omega
  · split at hn
    · simp at hn
      omega
    · split at hn
      · simp at hn
        omega
      · simp at hn
        omega

include hU in
theorem shownText_eq (e : TransferEncoding) {body : JSText} (hfree : ¬b.line <:+: body)
    (htext : trim body ≠ [] → e.decode (trim body) ≠ []) :
    shownText U b e body = if trim body = [] then [] else trim (e.decode (trim body)) := by
  rw [shownText]
  split
  · rename_i hbody
    rw [extract_blank hU b e hfree hbody]
    rfl
  · rename_i hbody
    rw [extract_part hU b e hfree hbody (htext hbody)]
    rfl

theorem ofString_ascii {text : String} (h : ∀ c ∈ text.toList, c.toNat < 0x80) :
    ofString text = (utf8 text).map UInt16.ofNat := by
  rw [ofString, utf8, List.map_flatMap]
  refine List.flatMap_congr fun c hc => ?_
  have hlt := h c hc
  rw [codeUnits, if_pos (by omega), utf8Bytes, if_pos hlt]
  rfl

theorem utf8_eq_nil {text : String} (h : utf8 text = []) : text.toList = [] := by
  rw [utf8, List.flatMap_eq_nil_iff] at h
  refine List.eq_nil_iff_forall_not_mem.mpr fun c hc => ?_
  have hnil := h c hc
  rw [utf8Bytes] at hnil
  split at hnil
  · cases hnil
  · split at hnil
    · cases hnil
    · split at hnil <;> cases hnil

theorem base64_free {bytes : List Nat} (hlt : ∀ n ∈ bytes, n < 256) {body : JSText}
    (hbody : Base64 bytes body) : ¬b.line <:+: body := by
  intro hin
  have hmem : unit '-' ∈ body := hin.subset List.mem_cons_self
  have hkept : unit '-' ∈ removeWhite body := List.mem_filter.mpr ⟨hmem, rfl⟩
  rw [hbody, base64Text_eq, List.mem_append, List.mem_map] at hkept
  obtain ⟨n, hn, hletter⟩ | hpad := hkept
  · have hdigit := (base64Letter_spec (sextets_lt hlt n hn)).1
    rw [hletter] at hdigit
    cases hdigit
  · obtain ⟨h, -⟩ | ⟨h, -⟩ | ⟨h, -⟩ := padding_cases bytes <;> rw [h] at hpad <;> revert hpad <;> decide

include hU in
/-- **Base64 gives every text back** that is not a byte order mark alone. -/
theorem shown_base64 (text : String) {body : JSText} (hbody : Base64 (utf8 text) body)
    (hmark : decodeUtf8 (utf8 text) = [] → text.toList = []) :
    shownText U b .base64 body = trim (ofString text) := by
  have hdecode : TransferEncoding.base64.decode (trim body) = decodeUtf8 (utf8 text) := by
    rw [TransferEncoding.decode, removeWhite_trim, hbody, atob_text (utf8_lt text)]
    rfl
  have hempty : trim body = [] ↔ text.toList = [] := by
    constructor
    · intro hnil
      have hchars := removeWhite_trim body
      rw [hnil, hbody] at hchars
      exact utf8_eq_nil (base64Text_eq_nil hchars.symm)
    · intro hnil
      rw [Base64, utf8, hnil] at hbody
      have hwhite : ∀ c ∈ body, isWhite c = true := by
        simpa [removeWhite] using List.filter_eq_nil_iff.mp hbody
      have htrim := trim_white_append hwhite []
      rwa [List.append_nil] at htrim
  rw [shownText_eq hU b _ (base64_free b (utf8_lt text) hbody), hdecode, trim_decodeUtf8]
  · split
    · rename_i hnil
      rw [ofString, hempty.mp hnil]
      rfl
    · rfl
  · rw [hdecode]
    exact fun hne hnil => hne (hempty.mpr (hmark hnil))

include hU in
/-- Quoted-printable gives the letters of the bytes. -/
theorem shown_quoted {bytes : List Nat} {body : JSText} (hbody : QuotedPrintable bytes body)
    (hfree : ¬b.line <:+: body) :
    shownText U b .quotedPrintable body = trim (decodeQuoted (trim body)) := by
  obtain ⟨w, mid, w', t, hdecode, -, -, -, -, hne⟩ := decodeQuoted_trim hbody
  rw [shownText_eq hU b _ hfree]
  · split
    · rename_i hnil
      rw [hnil]
      rfl
    · rfl
  · intro h
    rw [TransferEncoding.decode, hdecode]
    exact hne h

theorem white_of_blank {w : List Nat} (hw : ∀ n ∈ w, IsBlank n) :
    ∀ c ∈ w.map UInt16.ofNat, isWhite c = true := by
  intro c hc
  obtain ⟨n, hn, rfl⟩ := List.mem_map.mp hc
  obtain rfl | rfl | rfl | rfl := hw n hn <;> rfl

theorem count_trim {c : UInt16} (hc : isWhite c = false) (s : JSText) : (trim s).count c = s.count c := by
  obtain ⟨x, y, hs, hx, hy⟩ := trim_split s
  have hx' : c ∉ x := fun h => by rw [hx c h] at hc; cases hc
  have hy' : c ∉ y := fun h => by rw [hy c h] at hc; cases hc
  conv_rhs => rw [hs]
  rw [List.count_append, List.count_append, List.count_eq_zero_of_not_mem hx',
    List.count_eq_zero_of_not_mem hy']
  omega

/-- **The two encodings agree** exactly on a text in ASCII whose quoted-printable form does not end
with a soft line break. The delimiter is in no line of the form: MIME keeps it from the beginnings of
lines only, but the message is split wherever it stands. -/
theorem agree_iff (hU : ∀ s : JSText, (∀ c ∈ s, c < 128) → U.toLowerCase s = s.map lower)
    (text : String) {quoted base64 : JSText} (hquoted : QuotedPrintable (utf8 text) quoted)
    (hbase64 : Base64 (utf8 text) base64) (hfree : ¬b.line <:+: quoted) :
    Agree U b text quoted base64 ↔
      (∀ c ∈ text.toList, c.toNat < 0x80) ∧ (trim quoted).getLast? ≠ some (unit '=') := by
  obtain ⟨w, mid, w', t, hdecode, hbytes, hw, hw', ht, -⟩ := decodeQuoted_trim hquoted
  have hshown : shownText U b .quotedPrintable quoted = trim (mid.map UInt16.ofNat ++ t) := by
    rw [shown_quoted hU b hquoted hfree, hdecode]
  have hlatin : (utf8 text).map UInt16.ofNat =
      w.map UInt16.ofNat ++ (mid.map UInt16.ofNat ++ w'.map UInt16.ofNat) := by
    rw [hbytes, List.map_append, List.map_append]
  have htrim : trim ((utf8 text).map UInt16.ofNat) = trim (mid.map UInt16.ofNat) := by
    rw [hlatin, trim_white_append (white_of_blank hw), trim_append_white (white_of_blank hw')]
  constructor
  · intro h
    have hsame : trim (mid.map UInt16.ofNat ++ t) = trim (ofString text) := hshown.symm.trans h.quoted
    have hascii : ∀ c ∈ text.toList, c.toNat < 0x80 := by
      apply ascii_of_weight
      have hweight := congrArg weight hsame
      have hlight := congrArg weight htrim
      rw [weight_trim, weight_trim, weight_append] at hweight
      rw [weight_trim, weight_trim] at hlight
      omega
    refine ⟨hascii, ?_⟩
    obtain ⟨-, hlast⟩ | ⟨rfl, -⟩ := ht
    · exact hlast
    · -- one equality sign too many
      have hcount := congrArg (List.count (unit '=')) hsame
      rw [ofString_ascii hascii, htrim, count_trim rfl, count_trim rfl, List.count_append] at hcount
      simp [js, unit] at hcount
  · rintro ⟨hascii, hlast⟩
    obtain ⟨rfl, -⟩ | ⟨-, h⟩ := ht
    · refine ⟨?_, shown_base64 hU b text hbase64 fun hnil => ?_⟩
      · rw [hshown, List.append_nil, ofString_ascii hascii, htrim]
      · obtain h | ⟨c, cs, hcs, hc, -⟩ := decodeUtf8_utf8 text
        · rw [h, ofString_ascii hascii, List.map_eq_nil_iff] at hnil
          exact utf8_eq_nil hnil
        · have hlt := hascii c (by simp [hcs])
          omega
    · exact absurd h hlast

theorem plain_letterB : ∀ c ∈ js "b", isBoundaryUnit c = true := by
  simp [js, isBoundaryUnit, isWord]

/-- A boundary of one letter. -/
def letterB : Boundary := ⟨js "b", List.cons_ne_nil _ _, plain_letterB⟩

/-- A text with an equality sign, in both encodings. -/
theorem agree_equation : Agree asciiLetters letterB "a=b" (js "a=3D=\r\nb") (js "YT1i") := by
  have hquoted : QuotedPrintable (utf8 "a=b") (js "a=3D=\r\nb") := by
    refine ⟨[.plain 97, .escape (unit '3') (unit 'D'), .soft true, .plain 98], ?_, by decide, rfl⟩
    simp [Quoted.WellFormed, isHex, unit]
  have hbase64 : Base64 (utf8 "a=b") (js "YT1i") := by
    rw [Base64]
    decide +kernel
  have hfree : ¬letterB.line <:+: js "a=3D=\r\nb" := by decide
  exact (agree_iff letterB lowercases_ascii.ascii "a=b" hquoted hbase64 hfree).mpr
    ⟨by simp, by decide +kernel⟩

/-- The two bytes of a letter come out of quoted-printable as two letters. -/
theorem accent_not_agree : QuotedPrintable (utf8 "é") (js "=C3=A9") ∧ Base64 (utf8 "é") (js "w6k=") ∧
    ¬letterB.line <:+: js "=C3=A9" ∧ ¬Agree asciiLetters letterB "é" (js "=C3=A9") (js "w6k=") := by
  have hquoted : QuotedPrintable (utf8 "é") (js "=C3=A9") := by
    refine ⟨[.escape (unit 'C') (unit '3'), .escape (unit 'A') (unit '9')], ?_, by decide, rfl⟩
    simp [Quoted.WellFormed, isHex, unit]
  have hfree : ¬letterB.line <:+: js "=C3=A9" := by decide
  have hbase64 : Base64 (utf8 "é") (js "w6k=") := by
    rw [Base64]
    decide +kernel
  refine ⟨hquoted, hbase64, hfree, fun h => ?_⟩
  have hshown := h.quoted
  rw [shown_quoted lowercases_ascii.ascii letterB hquoted hfree] at hshown
  revert hshown
  decide +kernel

end Agreement

end E2Mail.Frontend.TextEncodings
