import E2Mail.Frontend.MimeText
import E2Mail.Lib.PrefixCode

/-!
# Links in a decrypted text

The frame that shows a decrypted text escapes it for HTML, and then makes links of the URLs in
it: first of those in square brackets, then of all others, by replacements in the HTML that
the step before has made.

* `linkify` — the HTML of a text;
* `Piece` — a letter, a line break or a link;
* `Faithful` — the HTML is pieces, and they show the text;
* `linkify_faithful_iff` — when it is so.
-/

namespace E2Mail.Frontend.Linkify

open Lib Lib.Pattern Pgp

/-! ## The rules -/

/-- `.replace(/&/g, '&amp;').replace(/</g, '&lt;').replace(/>/g, '&gt;')`. -/
def escapeHtml (s : JSText) : JSText :=
  ((s.flatMap fun c => if c = unit '&' then js "&amp;" else [c]).flatMap fun c =>
    if c = unit '<' then js "&lt;" else [c]).flatMap fun c => if c = unit '>' then js "&gt;" else [c]

/-- `https?:\/\/`. -/
def scheme (s : JSText) : Option Nat := (keyword "https://" s).or (keyword "http://" s)

/-- `\[(https?:\/\/[\s\S]*?)\]`. -/
def bracketed (s : JSText) : Option Nat :=
  match s with
  | [] => none
  | c :: s =>
    if c = unit '[' then
      match scheme s with
      | none => none
      | some n =>
        if unit ']' ∈ s.drop n then some (n + ((s.drop n).takeWhile (· != unit ']')).length + 2)
        else none
    else none

/-- The group of a match of `bracketed`. -/
def inner (m : JSText) : JSText := m.tail.dropLast

/-- `-\r?\n`. -/
def hyphenBreak (s : JSText) : Option Nat :=
  if (js "-\n").isPrefixOf s then some 2 else if (js "-\r\n").isPrefixOf s then some 3 else none

/-- `cleanUrl` of a URL in brackets: without the ends of lines after a hyphen, and without blanks. -/
def clean (urlContent : JSText) : JSText :=
  trim (removeWhite (replaceAll hyphenBreak (fun _ => []) urlContent))

/-- `.replace(/"/g, '&quot;')`. -/
def quoteHtml (s : JSText) : JSText := s.flatMap fun c => if c = unit '"' then js "&quot;" else [c]

/-- What stands between the URL of a link and its text. -/
def linkStyle : JSText :=
  js "\" target=\"_blank\" rel=\"noopener noreferrer\" style=\"color:#2563eb;text-decoration:underline;word-break:break-all;\">"

/-- A link. -/
def anchor (safeUrl : JSText) : JSText :=
  js "<a href=\"" ++ safeUrl ++ linkStyle ++ safeUrl ++ js "</a>"

/-- The first rule on a match. -/
def linkBracketed (m : JSText) : JSText :=
  if (scheme (clean (inner m))).isSome then
    js "[" ++ anchor (quoteHtml (clean (inner m))) ++ js "]"
  else m

/-- A letter of a bare URL. -/
def isUrlUnit (c : UInt16) : Bool := !isWhite c && !(js "<])\"'").contains c

/-- `(https?:\/\/[^\s<\]\)"']+)`. -/
def bareUrl (s : JSText) : Option Nat :=
  match scheme s with
  | none => none
  | some n =>
    if (s.drop n).takeWhile isUrlUnit = [] then none
    else some (n + ((s.drop n).takeWhile isUrlUnit).length)

/-- `href="…"`. -/
def hrefOf (safeUrl : JSText) : JSText := js "href=\"" ++ safeUrl ++ js "\""

/-- The second rule on a match; `escaped` is the text before the rule. -/
def linkBare (escaped url : JSText) : JSText :=
  let cleanUrl := trim (replaceAll hyphenBreak (fun _ => []) url)
  if cleanUrl.length < 10 then url
  else if (indexOfText (hrefOf (quoteHtml cleanUrl)) escaped).isSome then url
  else anchor (quoteHtml cleanUrl)

/-- `.replace(/\n/g, '<br/>')`. -/
def breakLines (s : JSText) : JSText := s.flatMap fun c => if c = unit '\n' then js "<br/>" else [c]

/-- The HTML of a decrypted text that does not look like HTML. -/
def linkify (decryptedContent : JSText) : JSText :=
  let escaped := replaceAll bracketed linkBracketed (escapeHtml decryptedContent)
  let escaped := replaceAll bareUrl (linkBare escaped) escaped
  breakLines escaped

/-! ## What the HTML should be -/

/-- A letter in the text of an element: a line feed is a line break. -/
def textUnit (c : UInt16) : JSText :=
  if c = unit '&' then js "&amp;" else if c = unit '<' then js "&lt;"
  else if c = unit '>' then js "&gt;" else if c = unit '\n' then js "<br/>" else [c]

/-- A letter in a quoted attribute, and in the text of a link. -/
def attrUnit (c : UInt16) : JSText :=
  if c = unit '&' then js "&amp;" else if c = unit '<' then js "&lt;"
  else if c = unit '>' then js "&gt;" else if c = unit '"' then js "&quot;" else [c]

/-- What HTML is made of. -/
inductive Piece where
  | text (c : UInt16)
  | link (url : JSText)
  deriving DecidableEq

/-- The HTML of a piece. -/
def Piece.html : Piece → JSText
  | text c => textUnit c
  | link url => anchor (url.flatMap attrUnit)

/-- What a piece shows, without tags and escapes. -/
def Piece.shown : Piece → JSText
  | text c => [c]
  | link url => url

/-- **The HTML is faithful** to the text: it is escaped letters, line breaks and complete links,
and what they show is the text. -/
def Faithful (html text : JSText) : Prop :=
  ∃ pieces : List Piece, html = pieces.flatMap Piece.html ∧ pieces.flatMap Piece.shown = text

/-! ## The condition -/

/-- The URLs in brackets, in an escaped text. -/
def bracketUrls (escaped : JSText) : List JSText := (matchesFrom bracketed 0 escaped).map inner

/-- An escaped text with the URLs in brackets taken out. -/
def outside (escaped : JSText) : JSText := replaceAll bracketed (fun _ => js "[]") escaped

/-- **No URL in brackets is changed by the rules**: it has no blanks, and every URL that the
second rule finds in it is too short, or is one of the bracketed URLs, or stands in the text as
`href="…"`. -/
structure Untouched (escaped : JSText) : Prop where
  blanks : ∀ url ∈ bracketUrls escaped, ∀ c ∈ url, isWhite c = false
  nested : ∀ url ∈ bracketUrls escaped, ∀ m ∈ matchesFrom bareUrl 0 (quoteHtml url),
    m.length < 10 ∨ m ∈ (bracketUrls escaped).map quoteHtml ∨ hrefOf m <:+: outside escaped

/-! ## Escapes -/

section Escapes

variable {c : UInt16} {s t : JSText}

/-- A letter with its escape, if it has one. -/
def escapeUnit (c : UInt16) : JSText :=
  if c = unit '&' then js "&amp;" else if c = unit '<' then js "&lt;"
  else if c = unit '>' then js "&gt;" else [c]

theorem escapeHtml_eq (s : JSText) : escapeHtml s = s.flatMap escapeUnit := by
  rw [escapeHtml, List.flatMap_assoc, List.flatMap_assoc]
  refine List.flatMap_congr fun c _ => ?_
  rw [escapeUnit]
  split
  · rfl
  · rw [List.flatMap_singleton]
    split
    · rfl
    · exact List.flatMap_singleton ..

theorem escapeHtml_cons (c : UInt16) (s : JSText) :
    escapeHtml (c :: s) = escapeUnit c ++ escapeHtml s := by
  rw [escapeHtml_eq, escapeHtml_eq, List.flatMap_cons]

theorem escapeHtml_append (s t : JSText) : escapeHtml (s ++ t) = escapeHtml s ++ escapeHtml t := by
  rw [escapeHtml_eq, escapeHtml_eq, escapeHtml_eq, List.flatMap_append]

/-- The letters that have an escape. -/
def IsSpecial (c : UInt16) : Prop := c = unit '&' ∨ c = unit '<' ∨ c = unit '>'

instance (c : UInt16) : Decidable (IsSpecial c) :=
  inferInstanceAs (Decidable (c = unit '&' ∨ c = unit '<' ∨ c = unit '>'))

theorem escapeUnit_of_not (h : ¬IsSpecial c) : escapeUnit c = [c] := by
  simp only [IsSpecial, not_or] at h
  rw [escapeUnit, if_neg h.1, if_neg h.2.1, if_neg h.2.2]

/-- An escape begins with an ampersand, and has no letter that a rule looks for. -/
theorem escapeUnit_special (h : IsSpecial c) : ∃ w, escapeUnit c = unit '&' :: w ∧
    ∀ d ∈ escapeUnit c, d ∈ js "&ampltg;" := by
  obtain rfl | rfl | rfl := h
  · exact ⟨js "amp;", rfl, by simp [escapeUnit, js, unit]⟩
  · exact ⟨js "lt;", rfl, by simp [escapeUnit, js, unit]⟩
  · exact ⟨js "gt;", rfl, by simp [escapeUnit, js, unit]⟩

/-- The escapes bring in no letters but their own, and leave all others. -/
theorem mem_escapeHtml (hc : c ∉ js "&ampltg;<>") : c ∈ escapeHtml s ↔ c ∈ s := by
  have hsub : ∀ x ∈ js "&ampltg;", x ∈ js "&ampltg;<>" := fun x => List.mem_append_left (js "<>")
  rw [escapeHtml_eq]
  constructor
  · intro h
    obtain ⟨d, hd, hmem⟩ := List.mem_flatMap.mp h
    by_cases hspecial : IsSpecial d
    · obtain ⟨-, -, hall⟩ := escapeUnit_special hspecial
      exact absurd (hsub c (hall c hmem)) hc
    · rw [escapeUnit_of_not hspecial, List.mem_singleton] at hmem
      exact hmem ▸ hd
  · intro h
    have hspecial : ¬IsSpecial c := by
      rintro (rfl | rfl | rfl)
      · exact hc (by decide)
      · exact hc (by decide)
      · exact hc (by decide)
    exact List.mem_flatMap.mpr ⟨c, h, by rw [escapeUnit_of_not hspecial]; exact List.mem_singleton_self _⟩

section Literals

variable {canon : UInt16 → UInt16} (hcanon : ∀ x, IsSpecial x → canon x = x) {w : JSText}
include hcanon

/-- An escaped text begins with letters that have no escape where the text does. -/
theorem literal_escapeHtml (hw : ∀ x ∈ w, ¬IsSpecial x) (s : JSText) :
    ((escapeHtml s).take w.length).map canon = w ↔ (s.take w.length).map canon = w := by
  induction w generalizing s with
  | nil => exact Iff.rfl
  | cons x w ih =>
    obtain ⟨hx, hw⟩ := List.forall_mem_cons.mp hw
    cases s with
    | nil => exact Iff.rfl
    | cons c s =>
      rw [escapeHtml_cons]
      by_cases hc : IsSpecial c
      · obtain ⟨w', hw', -⟩ := escapeUnit_special hc
        rw [hw']
        refine iff_of_false (fun h => hx ?_) fun h => hx ?_
        · rw [← (List.cons.inj h).1, hcanon _ (.inl rfl)]
          exact .inl rfl
        · rwa [← (List.cons.inj h).1, hcanon c hc]
      · rw [escapeUnit_of_not hc]
        simp only [List.singleton_append, List.length_cons, List.take_succ_cons, List.map_cons,
          List.cons.injEq, ih hw]

end Literals

end Escapes

/-! ## The beginning of a URL -/

section Schemes

variable {s t : JSText} {n : Nat}

theorem plain_schemes : (∀ x ∈ js "https://", ¬IsSpecial x) ∧ ∀ x ∈ js "http://", ¬IsSpecial x := by
  constructor <;> simp [js, IsSpecial, unit]

theorem scheme_eq (s : JSText) : scheme s =
    if (s.take 8).map lower = js "https://" then some 8
    else if (s.take 7).map lower = js "http://" then some 7 else none := by
  have hlong : keyword "https://" s = if (s.take 8).map lower = js "https://" then some 8 else none := rfl
  have hshort : keyword "http://" s = if (s.take 7).map lower = js "http://" then some 7 else none := rfl
  rw [scheme, hlong, hshort]
  split
  · rfl
  · exact Option.none_or

theorem lower_special (x : UInt16) (h : IsSpecial x) : lower x = x := by
  obtain rfl | rfl | rfl := h <;> decide

theorem scheme_escapeHtml (s : JSText) : scheme (escapeHtml s) = scheme s := by
  rw [scheme_eq, scheme_eq]
  exact if_congr (literal_escapeHtml lower_special plain_schemes.1 s) rfl
    (if_congr (literal_escapeHtml lower_special plain_schemes.2 s) rfl rfl)

/-- What a scheme is: the letters of a keyword. -/
theorem scheme_some (h : scheme s = some n) :
    ∃ w, (w = js "https://" ∨ w = js "http://") ∧ n = w.length ∧ (s.take n).map lower = w := by
  rw [scheme_eq] at h
  split at h
  · rename_i hlong
    exact ⟨_, .inl rfl, (Option.some.inj h).symm, by rw [← Option.some.inj h]; exact hlong⟩
  · split at h
    · rename_i hshort
      exact ⟨_, .inr rfl, (Option.some.inj h).symm, by rw [← Option.some.inj h]; exact hshort⟩
    · cases h

theorem scheme_length (h : scheme s = some n) : 7 ≤ n ∧ n ≤ s.length := by
  obtain ⟨w, hw, rfl, htake⟩ := scheme_some h
  have hlength := congrArg List.length htake
  rw [List.length_map, List.length_take] at hlength
  refine ⟨?_, by omega⟩
  obtain rfl | rfl := hw <;> decide

theorem mem_schemes {w : JSText} (hw : w = js "https://" ∨ w = js "http://") :
    ∀ x ∈ w, x ∈ js "https:/" := by
  obtain rfl | rfl := hw
  · simp [js]
  · simp [js]

theorem scheme_isSome {w : JSText} (hw : w = js "https://" ∨ w = js "http://")
    (h : (s.take w.length).map lower = w) : (scheme s).isSome := by
  rw [scheme_eq]
  split
  · rfl
  · rename_i hlong
    obtain rfl | rfl := hw
    · exact absurd h hlong
    · have hshort : (s.take 7).map lower = js "http://" := h
      rw [if_pos hshort]
      rfl

theorem lower_of_scheme (h : scheme s = some n) {c : UInt16} (hc : c ∈ s.take n) :
    lower c ∈ js "https:/" := by
  obtain ⟨w, hw, -, htake⟩ := scheme_some h
  exact mem_schemes hw _ (htake ▸ List.mem_map_of_mem hc)

theorem isUrlUnit_of_lower {c : UInt16} (h : lower c ∈ js "https:/") : isUrlUnit c = true := by
  have hmem : c ∈ js "https:/HTPS" := by
    rw [lower] at h
    split at h
    · rename_i hupper
      have hmem : c ∈ (js "https:/").map (· - 32) :=
        List.mem_map.mpr ⟨c + 32, h, by rw [UInt16.add_sub_cancel]⟩
      simp [js] at hupper hmem ⊢
      obtain rfl | rfl | rfl | rfl | rfl | rfl := hmem <;> simp at hupper ⊢
    · exact List.mem_append_left (js "HTPS") h
  exact List.all_eq_true.mp (show (js "https:/HTPS").all isUrlUnit = true from rfl) c hmem

theorem isWhite_of_isUrlUnit {c : UInt16} (h : isUrlUnit c = true) : isWhite c = false := by
  rw [isUrlUnit, Bool.and_eq_true, Bool.not_eq_true'] at h
  exact h.1

theorem literal_append {w : JSText} (hw : ∀ x ∈ w, x ∈ js "https:/")
    (ht : ∀ c ∈ t.head?, lower c ∉ js "https:/") :
    ((s ++ t).take w.length).map lower = w ↔ (s.take w.length).map lower = w := by
  by_cases hle : w.length ≤ s.length
  · rw [List.take_append_of_le_length hle]
  · rw [List.take_append, List.take_of_length_le (Nat.le_of_not_le hle)]
    cases t with
    | nil => rw [List.take_nil, List.append_nil]
    | cons c t =>
      obtain ⟨k, hk⟩ : ∃ k, w.length - s.length = k + 1 := ⟨w.length - s.length - 1, by omega⟩
      rw [hk, List.take_succ_cons]
      refine iff_of_false (fun h => ht c rfl (hw _ ?_)) fun h => ?_
      · rw [← h, List.map_append, List.map_cons]
        exact List.mem_append_right _ List.mem_cons_self
      · have hlength := congrArg List.length h
        rw [List.length_map] at hlength
        omega

/-- A letter that no scheme has, or the end, cuts no scheme short. -/
theorem scheme_append (ht : ∀ c ∈ t.head?, lower c ∉ js "https:/") : scheme (s ++ t) = scheme s := by
  rw [scheme_eq, scheme_eq]
  exact if_congr (literal_append (mem_schemes (.inl rfl)) ht) rfl
    (if_congr (literal_append (mem_schemes (.inr rfl)) ht) rfl rfl)

end Schemes

/-! ## URLs in brackets -/

section Brackets

variable {s t url rest : JSText} {n : Nat}

/-- A URL that stands in brackets. -/
def IsBracketUrl (url : JSText) : Prop := (scheme url).isSome ∧ unit ']' ∉ url

theorem bracketed_url (h : IsBracketUrl url) (rest : JSText) :
    bracketed (unit '[' :: (url ++ unit ']' :: rest)) = some (url.length + 2) := by
  obtain ⟨hscheme, hfree⟩ := h
  obtain ⟨n, hn⟩ := Option.isSome_iff_exists.mp hscheme
  have happ : scheme (url ++ unit ']' :: rest) = some n := by
    rw [scheme_append, hn]
    intro c hc
    cases hc
    decide
  have hle := (scheme_length hn).2
  have hdrop : (url ++ unit ']' :: rest).drop n = url.drop n ++ unit ']' :: rest :=
    List.drop_append_of_le_length hle
  have hall : ∀ c ∈ url.drop n, (c != unit ']') = true := by
    intro c hc
    rw [bne_iff_ne]
    rintro rfl
    exact hfree (List.mem_of_mem_drop hc)
  have hrun : ((url ++ unit ']' :: rest).drop n).takeWhile (· != unit ']') = url.drop n := by
    rw [hdrop, List.takeWhile_append_of_pos hall]
    simp
  have hmem : unit ']' ∈ (url ++ unit ']' :: rest).drop n := by simp [hdrop]
  rw [bracketed, if_pos rfl, happ]
  dsimp only
  rw [if_pos hmem, hrun, List.length_drop]
  congr 1
  omega

theorem bracketed_some (h : bracketed s = some n) :
    ∃ url rest, s = unit '[' :: (url ++ unit ']' :: rest) ∧ IsBracketUrl url ∧ n = url.length + 2 := by
  cases s with
  | nil => cases h
  | cons c s =>
    rw [bracketed] at h
    split at h
    · rename_i hc
      split at h
      · cases h
      · rename_i k hk
        split at h
        · rename_i hmem
          obtain ⟨a, b, hsplit, ha⟩ := List.eq_append_cons_of_mem hmem
          have hs : s = s.take k ++ a ++ unit ']' :: b := by
            rw [List.append_assoc, ← hsplit, List.take_append_drop]
          have hrun : (s.drop k).takeWhile (· != unit ']') = a := by
            have hall : ∀ c ∈ a, (c != unit ']') = true := by
              intro c hc
              rw [bne_iff_ne]
              rintro rfl
              exact ha hc
            rw [hsplit, List.takeWhile_append_of_pos hall]
            simp
          have hle := (scheme_length hk).2
          have hfree : unit ']' ∉ s.take k ++ a := by
            intro hin
            obtain hin | hin := List.mem_append.mp hin
            · exact absurd (lower_of_scheme hk hin) (by decide)
            · exact ha hin
          have hscheme : scheme (s.take k ++ a) = some k := by
            have happ : scheme (s.take k ++ a ++ unit ']' :: b) = scheme (s.take k ++ a) := by
              rw [scheme_append]
              intro c hc
              cases hc
              decide
            rw [← hs] at happ
            rw [← happ, hk]
          refine ⟨s.take k ++ a, b, ?_, ⟨Option.isSome_iff_exists.mpr ⟨k, hscheme⟩, hfree⟩, ?_⟩
          · rw [hc, ← hs]
          · rw [← Option.some.inj h, hrun, List.length_append, List.length_take_of_le hle]
        · cases h
    · cases h

theorem isBracketUrl_escapeHtml : IsBracketUrl (escapeHtml url) ↔ IsBracketUrl url := by
  rw [IsBracketUrl, IsBracketUrl, scheme_escapeHtml, mem_escapeHtml (by decide)]

/-- The letters of an escape begin no match. -/
theorem bracketed_ne {c : UInt16} (h : c ≠ unit '[') (s : JSText) : bracketed (c :: s) = none := by
  rw [bracketed, if_neg h]

/-- Where no URL in brackets begins in a text, none begins in its escaped form. -/
theorem bracketed_escapeUnit {c : UInt16} (h : bracketed (c :: t) = none) :
    ∀ a b, escapeUnit c = a ++ b → b ≠ [] → bracketed (b ++ escapeHtml t) = none := by
  intro a b hsplit hb
  obtain ⟨d, b, rfl⟩ := List.exists_cons_of_ne_nil hb
  by_cases hd : d = unit '['
  · by_cases hspecial : IsSpecial c
    · obtain ⟨-, -, hall⟩ := escapeUnit_special hspecial
      exact absurd (hall d (by rw [hsplit]; simp)) (by rw [hd]; decide)
    · rw [escapeUnit_of_not hspecial] at hsplit
      obtain ⟨rfl, hsplit⟩ : a = [] ∧ c :: [] = d :: b := by
        cases a with
        | nil => exact ⟨rfl, hsplit⟩
        | cons x a => simp at hsplit
      obtain ⟨rfl, rfl⟩ := List.cons.inj hsplit
      -- a match would be one of the text
      by_contra hsome
      obtain ⟨n, hn⟩ := Option.ne_none_iff_exists'.mp hsome
      obtain ⟨u, rest, hs, hu, -⟩ := bracketed_some hn
      have htail : escapeHtml t = u ++ unit ']' :: rest := (List.cons.inj hs).2
      have hmem : unit ']' ∈ t := (mem_escapeHtml (by decide)).mp (htail ▸ by simp)
      obtain ⟨url, rest', rfl, hurl⟩ := List.eq_append_cons_of_mem hmem
      have hfree : unit ']' ∉ escapeHtml url := fun h => hurl ((mem_escapeHtml (by decide)).mp h)
      rw [escapeHtml_append, escapeHtml_cons] at htail
      obtain ⟨rfl, -⟩ := cut_inj hfree hu.2 htail
      rw [hd, bracketed_url (isBracketUrl_escapeHtml.mp hu)] at h
      cases h
  · exact bracketed_ne hd _

/-- **The first URL in brackets** of a text, or none: what the first rule makes of it. -/
theorem first_bracket (t : JSText) :
    ((∀ f, replaceAll bracketed f (escapeHtml t) = escapeHtml t) ∧ bracketUrls (escapeHtml t) = []) ∨
      ∃ seg url rest, t = seg ++ unit '[' :: (url ++ unit ']' :: rest) ∧ IsBracketUrl url ∧
        (∀ f, replaceAll bracketed f (escapeHtml t) =
          escapeHtml seg ++ (f (unit '[' :: (escapeHtml url ++ [unit ']'])) ++
            replaceAll bracketed f (escapeHtml rest))) ∧
        bracketUrls (escapeHtml t) = escapeHtml url :: bracketUrls (escapeHtml rest) := by
  induction t with
  | nil => exact .inl ⟨fun f => rfl, rfl⟩
  | cons c t ih =>
    cases hsome : bracketed (c :: t) with
    | some n =>
      obtain ⟨url, rest, hs, hurl, -⟩ := bracketed_some hsome
      have hescaped : escapeHtml (c :: t) =
          (unit '[' :: (escapeHtml url ++ [unit ']'])) ++ escapeHtml rest := by
        rw [hs, escapeHtml_cons, escapeHtml_append, escapeHtml_cons]
        simp [escapeUnit_of_not, IsSpecial, unit]
      have hfind : bracketed ((unit '[' :: (escapeHtml url ++ [unit ']'])) ++ escapeHtml rest) =
          some (unit '[' :: (escapeHtml url ++ [unit ']'])).length := by
        have hbracket := bracketed_url (isBracketUrl_escapeHtml.mpr hurl) (escapeHtml rest)
        simpa using hbracket
      refine .inr ⟨[], url, rest, hs, hurl, fun f => ?_, ?_⟩
      · rw [hescaped, (found (List.cons_ne_nil _ _) hfind f).1]
        rfl
      · rw [bracketUrls, hescaped, (found (List.cons_ne_nil _ _) hfind id).2, List.map_cons, inner,
          List.tail_cons, List.dropLast_concat]
        rfl
    | none =>
      have hpass := pass (bracketed_escapeUnit hsome)
      have hreplace : ∀ f, replaceAll bracketed f (escapeHtml (c :: t)) =
          escapeUnit c ++ replaceAll bracketed f (escapeHtml t) := by
        intro f
        rw [escapeHtml_cons, (hpass f).1]
      have hurls : bracketUrls (escapeHtml (c :: t)) = bracketUrls (escapeHtml t) := by
        rw [bracketUrls, escapeHtml_cons, (hpass id).2, bracketUrls]
      obtain ⟨hnone, hnil⟩ | ⟨seg, url, rest, rfl, hurl, hfirst, hrest⟩ := ih
      · exact .inl ⟨fun f => by rw [hreplace, hnone, escapeHtml_cons], hurls.trans hnil⟩
      · refine .inr ⟨c :: seg, url, rest, rfl, hurl, fun f => ?_, hurls.trans hrest⟩
        rw [hreplace, hfirst, escapeHtml_cons, List.append_assoc]

end Brackets

/-! ## Cleaning -/

section Cleaning

variable {s t url : JSText}

theorem hyphenBreak_cons {c : UInt16} (h : c ≠ unit '-') (s : JSText) :
    hyphenBreak (c :: s) = none := by
  have hne : unit '-' ≠ c := Ne.symm h
  rw [hyphenBreak, if_neg, if_neg]
  · simp [js, unit, List.isPrefixOf] at hne ⊢
    exact fun heq => absurd heq hne
  · simp [js, unit, List.isPrefixOf] at hne ⊢
    exact fun heq => absurd heq hne

/-- A break after a hyphen is one of two texts. -/
theorem hyphenBreak_some {n : Nat} (h : hyphenBreak s = some n) :
    ∃ w t, (w = js "-\n" ∨ w = js "-\r\n") ∧ s = w ++ t ∧ n = w.length := by
  rw [hyphenBreak] at h
  split at h
  · rename_i hshort
    obtain ⟨t, rfl⟩ := List.isPrefixOf_iff_prefix.mp hshort
    exact ⟨_, t, .inl rfl, rfl, (Option.some.inj h).symm⟩
  · split at h
    · rename_i hlong
      obtain ⟨t, rfl⟩ := List.isPrefixOf_iff_prefix.mp hlong
      exact ⟨_, t, .inr rfl, rfl, (Option.some.inj h).symm⟩
    · cases h

theorem hyphenBreak_append {w : JSText} (hw : w = js "-\n" ∨ w = js "-\r\n") (t : JSText) :
    hyphenBreak (w ++ t) = some w.length := by
  obtain rfl | rfl := hw
  · rfl
  · rfl

/-- Without a line feed there is no break to take out. -/
theorem hyphenBreak_free (h : unit '\n' ∉ s) : replaceAll hyphenBreak (fun _ => []) s = s := by
  have hpass : replaceAll hyphenBreak (fun _ => []) (s ++ []) = s ++ [] := by
    refine (pass (fun a b hs _ => ?_) _).1
    rw [Option.eq_none_iff_forall_ne_some]
    intro n hn
    obtain ⟨w, t, hw, hb, -⟩ := hyphenBreak_some hn
    rw [List.append_nil] at hb
    refine h ?_
    rw [hs, hb]
    obtain rfl | rfl := hw
    · simp [js, unit]
    · simp [js, unit]
  rwa [List.append_nil] at hpass

theorem removeWhite_free (s : JSText) : ∀ c ∈ removeWhite s, isWhite c = false := by
  intro c hc
  simpa using (List.mem_filter.mp hc).2

theorem clean_eq (s : JSText) : clean s = removeWhite (replaceAll hyphenBreak (fun _ => []) s) :=
  trim_of_free (removeWhite_free _)

theorem clean_free (s : JSText) : ∀ c ∈ clean s, isWhite c = false := by
  rw [clean_eq]
  exact removeWhite_free _

theorem clean_of_free (h : ∀ c ∈ s, isWhite c = false) : clean s = s := by
  have hfeed : unit '\n' ∉ s := fun hmem => absurd (h _ hmem) (by decide)
  rw [clean_eq, hyphenBreak_free hfeed, removeWhite, List.filter_eq_self]
  intro c hc
  simp [h c hc]

theorem mem_clean {c : UInt16} (h : c ∈ clean s) : c ∈ s := by
  rw [clean_eq] at h
  exact (replaceFrom_nil_sublist hyphenBreak 0 s).subset (List.mem_of_mem_filter h)

/-- Breaks are taken out of an escaped text as out of the text. -/
theorem breaks_escapeHtml (s : JSText) : replaceAll hyphenBreak (fun _ => []) (escapeHtml s) =
    escapeHtml (replaceAll hyphenBreak (fun _ => []) s) := by
  induction hn : s.length using Nat.strong_induction_on generalizing s with
  | _ n ih =>
    subst hn
    cases s with
    | nil => rfl
    | cons c s =>
      cases hsome : hyphenBreak (c :: s) with
      | some n =>
        obtain ⟨w, t, hw, hs, rfl⟩ := hyphenBreak_some hsome
        have hne : w ≠ [] := by obtain rfl | rfl := hw <;> exact List.cons_ne_nil _ _
        have hescaped : escapeHtml w = w := by obtain rfl | rfl := hw <;> rfl
        have hshort : t.length < (c :: s).length := by
          have hpos := List.length_pos_iff.mpr hne
          rw [hs, List.length_append]
          omega
        rw [hs, escapeHtml_append, hescaped, (found hne (hyphenBreak_append hw _) _).1,
          (found hne (hyphenBreak_append hw _) _).1]
        exact ih t.length hshort t rfl
      | none =>
        have hescaped : ∀ a b, escapeUnit c = a ++ b → b ≠ [] → hyphenBreak (b ++ escapeHtml s) = none := by
          intro a b hsplit hb
          rw [Option.eq_none_iff_forall_ne_some]
          intro n hn
          obtain ⟨d, b, rfl⟩ := List.exists_cons_of_ne_nil hb
          obtain ⟨w, t, hw, hs, rfl⟩ := hyphenBreak_some hn
          have hd : d = unit '-' := by obtain rfl | rfl := hw <;> exact (List.cons.inj hs).1
          by_cases hspecial : IsSpecial c
          · obtain ⟨-, -, hall⟩ := escapeUnit_special hspecial
            exact absurd (hall d (by rw [hsplit]; simp)) (by rw [hd]; decide)
          · rw [escapeUnit_of_not hspecial] at hsplit
            obtain ⟨rfl, hcons⟩ : a = [] ∧ c :: [] = d :: b := by
              cases a with
              | nil => exact ⟨rfl, hsplit⟩
              | cons x a => simp at hsplit
            obtain ⟨rfl, rfl⟩ := List.cons.inj hcons
            have hplain : ∀ x ∈ w.tail, ¬IsSpecial x := by
              obtain rfl | rfl := hw <;> simp [js, IsSpecial, unit]
            have htail : escapeHtml s = w.tail ++ t := by
              obtain rfl | rfl := hw <;> exact (List.cons.inj hs).2
            have hliteral : ((escapeHtml s).take w.tail.length).map id = w.tail := by
              rw [htail, List.take_left, List.map_id]
            have htake := (literal_escapeHtml (fun _ _ => rfl) hplain s).mp hliteral
            rw [List.map_id'] at htake
            have hwhole : c :: s = w ++ s.drop w.tail.length := by
              have hw' : w = c :: w.tail := by obtain rfl | rfl := hw <;> rw [hd] <;> rfl
              rw [hw', List.cons_append, List.tail_cons, ← htake, List.length_take_of_le,
                List.take_append_drop]
              have hlength := congrArg List.length htake
              rw [List.length_take] at hlength
              omega
            rw [hwhole, hyphenBreak_append hw] at hsome
            cases hsome
        rw [escapeHtml_cons, (pass hescaped _).1, replaceAll_none hsome, escapeHtml_cons,
          ih s.length (Nat.lt_succ_self _) s rfl]

theorem removeWhite_escapeHtml (s : JSText) : removeWhite (escapeHtml s) = escapeHtml (removeWhite s) := by
  induction s with
  | nil => rfl
  | cons c s ih =>
    rw [escapeHtml_cons, removeWhite, List.filter_append, ← removeWhite, ← removeWhite, ih]
    by_cases hspecial : IsSpecial c
    · have hblack : isWhite c = false := by obtain rfl | rfl | rfl := hspecial <;> decide
      have hunit : removeWhite (escapeUnit c) = escapeUnit c := by
        obtain rfl | rfl | rfl := hspecial <;> decide
      rw [hunit, removeWhite, removeWhite, List.filter_cons_of_pos (by simp [hblack]), escapeHtml_cons]
    · rw [escapeUnit_of_not hspecial]
      cases hwhite : isWhite c with
      | true =>
        rw [removeWhite, removeWhite, removeWhite, List.filter_cons_of_neg (by simp [hwhite]),
          List.filter_cons_of_neg (by simp [hwhite])]
        rfl
      | false =>
        rw [removeWhite, removeWhite, removeWhite, List.filter_cons_of_pos (by simp [hwhite]),
          List.filter_cons_of_pos (by simp [hwhite]), escapeHtml_cons, escapeUnit_of_not hspecial]
        rfl

theorem clean_escapeHtml (s : JSText) : clean (escapeHtml s) = escapeHtml (clean s) := by
  rw [clean_eq, clean_eq, breaks_escapeHtml, removeWhite_escapeHtml]

theorem clean_iff : clean s = s ↔ ∀ c ∈ escapeHtml s, isWhite c = false := by
  constructor
  · intro h
    have hescaped := clean_escapeHtml s
    rw [h] at hescaped
    rw [← hescaped]
    exact clean_free _
  · intro h
    refine clean_of_free fun c hc => ?_
    by_cases hmem : c ∈ js "&ampltg;<>"
    · have hblack : (js "&ampltg;<>").all (fun c => isWhite c == false) = true := rfl
      exact beq_iff_eq.mp (List.all_eq_true.mp hblack c hmem)
    · exact h c ((mem_escapeHtml hmem).mpr hc)

theorem scheme_clean (h : (scheme s).isSome) : (scheme (clean s)).isSome := by
  obtain ⟨n, hn⟩ := Option.isSome_iff_exists.mp h
  have hle := (scheme_length hn).2
  have hletters : ∀ c ∈ s.take n, c ≠ unit '-' ∧ isWhite c = false := by
    intro c hc
    have hlower := lower_of_scheme hn hc
    refine ⟨?_, ?_⟩
    · rintro rfl
      revert hlower
      decide
    · exact isWhite_of_isUrlUnit (isUrlUnit_of_lower hlower)
  have hpass : replaceAll hyphenBreak (fun _ => []) (s.take n ++ s.drop n) =
      s.take n ++ replaceAll hyphenBreak (fun _ => []) (s.drop n) := by
    refine (pass (fun a b hs hb => ?_) _).1
    obtain ⟨c, b, rfl⟩ := List.exists_cons_of_ne_nil hb
    exact hyphenBreak_cons (hletters c (by rw [hs]; simp)).1 _
  have hfront : removeWhite (s.take n) = s.take n := by
    rw [removeWhite, List.filter_eq_self]
    intro c hc
    simp [(hletters c hc).2]
  rw [List.take_append_drop] at hpass
  rw [clean_eq, hpass, removeWhite, List.filter_append, ← removeWhite, hfront]
  obtain ⟨w, hw, rfl, htake⟩ := scheme_some hn
  refine scheme_isSome hw ?_
  rw [List.take_append_of_le_length (by rw [List.length_take_of_le hle]), List.take_take, Nat.min_self]
  exact htake

end Cleaning

/-! ## Bare URLs -/

section BareUrls

variable {s t y m escaped : JSText} {c : UInt16} {n : Nat}

/-- The letters of a bare URL that is found. -/
def IsUrl (m : JSText) : Prop := m ≠ [] ∧ ∀ c ∈ m, isUrlUnit c = true

theorem bareUrl_some (h : bareUrl s = some n) :
    ∃ m t, s = m ++ t ∧ n = m.length ∧ IsUrl m ∧ ∀ c ∈ t.head?, isUrlUnit c = false := by
  rw [bareUrl] at h
  split at h
  · cases h
  · rename_i k hk
    split at h
    · cases h
    · obtain ⟨hpos, hle⟩ := scheme_length hk
      have hwhole : s = (s.take k ++ (s.drop k).takeWhile isUrlUnit) ++
          (s.drop k).dropWhile isUrlUnit := by
        rw [List.append_assoc, List.takeWhile_append_dropWhile, List.take_append_drop]
      refine ⟨_, _, hwhole, ?_, ⟨?_, ?_⟩, ?_⟩
      · rw [← Option.some.inj h, List.length_append, List.length_take_of_le hle]
      · intro hnil
        have hlength := congrArg List.length hnil
        rw [List.length_append, List.length_take_of_le hle, List.length_nil] at hlength
        omega
      · intro c hc
        obtain hc | hc := List.mem_append.mp hc
        · exact isUrlUnit_of_lower (lower_of_scheme hk hc)
        · exact List.mem_takeWhile_imp hc
      · intro c hc
        have hhead := List.head?_dropWhile_not isUrlUnit (s.drop k)
        rw [Option.mem_def.mp hc] at hhead
        exact hhead

theorem bareUrl_length : ∀ t n, bareUrl t = some n → 0 < n ∧ n ≤ t.length := by
  intro t n h
  obtain ⟨m, t, rfl, rfl, ⟨hne, -⟩, -⟩ := bareUrl_some h
  exact ⟨List.length_pos_iff.mpr hne, by simp⟩

/-- A letter that no URL has, or the end, cuts no URL short. -/
theorem bareUrl_append (hy : ∀ c ∈ y.head?, isUrlUnit c = false) (s : JSText) :
    bareUrl (s ++ y) = bareUrl s := by
  have hscheme : scheme (s ++ y) = scheme s := by
    apply scheme_append
    intro c hc hlower
    exact absurd (isUrlUnit_of_lower hlower) (by simp [hy c hc])
  have hnone : y.takeWhile isUrlUnit = [] := by
    cases y with
    | nil => rfl
    | cons c y => exact List.takeWhile_cons_of_neg (by simp [hy c rfl])
  rw [bareUrl, bareUrl, hscheme]
  split
  · rfl
  · rename_i k hk
    have hrun : ((s ++ y).drop k).takeWhile isUrlUnit = (s.drop k).takeWhile isUrlUnit := by
      rw [List.drop_append_of_le_length (scheme_length hk).2, List.takeWhile_append]
      split
      · rename_i hwhole
        rw [hnone, List.append_nil]
        exact ((List.takeWhile_prefix _).eq_of_length hwhole).symm
      · rfl
    rw [hrun]

theorem replace_append (hy : ∀ c ∈ y.head?, isUrlUnit c = false) (f : JSText → JSText) (x : JSText) :
    replaceAll bareUrl f (x ++ y) = replaceAll bareUrl f x ++ replaceAll bareUrl f y :=
  replaceAll_append (fun t n h => (bareUrl_length t n h).2) (fun _ b _ _ => bareUrl_append hy b) f

/-- A URL begins with an `h`. -/
theorem bareUrl_cons (h : lower c ≠ unit 'h') (s : JSText) : bareUrl (c :: s) = none := by
  have hscheme : scheme (c :: s) = none := by
    rw [Option.eq_none_iff_forall_ne_some]
    intro n hn
    obtain ⟨w, hw, rfl, htake⟩ := scheme_some hn
    obtain rfl | rfl := hw
    · exact h (List.cons.inj htake).1
    · exact h (List.cons.inj htake).1
  rw [bareUrl, hscheme]

/-- After the `h` comes a `t`. -/
theorem bareUrl_second {d : UInt16} (h : lower d ≠ unit 't') (s : JSText) :
    bareUrl (c :: d :: s) = none := by
  have hscheme : scheme (c :: d :: s) = none := by
    rw [Option.eq_none_iff_forall_ne_some]
    intro n hn
    obtain ⟨w, hw, rfl, htake⟩ := scheme_some hn
    obtain rfl | rfl := hw
    · exact h (List.cons.inj (List.cons.inj htake).2).1
    · exact h (List.cons.inj (List.cons.inj htake).2).1
  rw [bareUrl, hscheme]

/-- A piece without that letter is passed over. -/
theorem replace_quiet {x : JSText} (hx : ∀ c ∈ x, lower c ≠ unit 'h') (f : JSText → JSText) (y : JSText) :
    replaceAll bareUrl f (x ++ y) = x ++ replaceAll bareUrl f y := by
  refine (pass (fun a b hsplit hb => ?_) f).1
  obtain ⟨c, b, rfl⟩ := List.exists_cons_of_ne_nil hb
  exact bareUrl_cons (hx c (by rw [hsplit]; simp)) _

theorem quoteHtml_of_free (h : unit '"' ∉ s) : quoteHtml s = s := by
  rw [quoteHtml, List.flatMap_congr (g := fun c => [c]), List.flatMap_singleton']
  intro c hc
  rw [if_neg]
  rintro rfl
  exact h hc

/-- The second rule makes a link of a URL, or leaves it. -/
theorem linkBare_eq (hm : IsUrl m) (escaped : JSText) : linkBare escaped m =
    if m.length < 10 ∨ hrefOf m <:+: escaped then m else anchor m := by
  have hwhite : ∀ c ∈ m, isWhite c = false := fun c hc => isWhite_of_isUrlUnit (hm.2 c hc)
  have hfeed : unit '\n' ∉ m := fun hmem => absurd (hm.2 _ hmem) (by decide)
  have hquote : unit '"' ∉ m := fun hmem => absurd (hm.2 _ hmem) (by decide)
  rw [linkBare, hyphenBreak_free hfeed, trim_of_free hwhite, quoteHtml_of_free hquote]
  by_cases hshort : m.length < 10
  · rw [if_pos hshort, if_pos (.inl hshort)]
  · rw [if_neg hshort]
    by_cases hhref : hrefOf m <:+: escaped
    · rw [if_pos (indexOfText_isSome.mpr hhref), if_pos (.inr hhref)]
    · rw [if_neg (fun h => hhref (indexOfText_isSome.mp h)), if_neg (by tauto)]

theorem linkBare_fixed (hm : IsUrl m) :
    linkBare escaped m = m ↔ m.length < 10 ∨ hrefOf m <:+: escaped := by
  rw [linkBare_eq hm]
  constructor
  · intro h
    by_contra hnot
    rw [if_neg hnot] at h
    have hmem : unit '<' ∈ m := by
      rw [← h, anchor]
      simp [js, unit]
    exact absurd (hm.2 _ hmem) (by decide)
  · exact fun h => if_pos h

end BareUrls

/-! ## Pieces -/

section Pieces

variable {s t u m escaped : JSText} {c : UInt16}

theorem breakLines_append (s t : JSText) : breakLines (s ++ t) = breakLines s ++ breakLines t :=
  List.flatMap_append

theorem breakLines_of_free (h : unit '\n' ∉ s) : breakLines s = s := by
  rw [breakLines, List.flatMap_congr (g := fun c => [c]), List.flatMap_singleton']
  intro c hc
  rw [if_neg]
  rintro rfl
  exact h hc

theorem breakLines_escapeUnit (c : UInt16) : breakLines (escapeUnit c) = textUnit c := by
  by_cases hspecial : IsSpecial c
  · obtain rfl | rfl | rfl := hspecial <;> rfl
  · rw [escapeUnit_of_not hspecial]
    simp only [IsSpecial, not_or] at hspecial
    rw [textUnit, if_neg hspecial.1, if_neg hspecial.2.1, if_neg hspecial.2.2, breakLines,
      List.flatMap_singleton]

/-- The letters of an escaped text, as pieces. -/
theorem breakLines_escapeHtml (s : JSText) :
    breakLines (escapeHtml s) = (s.map Piece.text).flatMap Piece.html := by
  rw [escapeHtml_eq, breakLines, List.flatMap_assoc, List.flatMap_map]
  exact List.flatMap_congr fun c _ => breakLines_escapeUnit c

theorem shown_text (s : JSText) : (s.map Piece.text).flatMap Piece.shown = s := by
  rw [List.flatMap_map]
  exact List.flatMap_singleton' s

theorem quoteHtml_escapeHtml (s : JSText) : quoteHtml (escapeHtml s) = s.flatMap attrUnit := by
  rw [escapeHtml_eq, quoteHtml, List.flatMap_assoc]
  refine List.flatMap_congr fun c _ => ?_
  by_cases hspecial : IsSpecial c
  · obtain rfl | rfl | rfl := hspecial <;> rfl
  · rw [escapeUnit_of_not hspecial]
    simp only [IsSpecial, not_or] at hspecial
    rw [attrUnit, if_neg hspecial.1, if_neg hspecial.2.1, if_neg hspecial.2.2, List.flatMap_singleton]

/-- A letter of an escape, or the letter itself. -/
theorem mem_attrUnit {d : UInt16} (h : d ∈ attrUnit c) :
    d ∈ js "&ampltgquo;" ∨ d = c ∧ d ∉ js "&<>\"" := by
  rw [attrUnit] at h
  split at h
  · exact .inl ((by simp [js] : js "&amp;" ⊆ js "&ampltgquo;") h)
  · split at h
    · exact .inl ((by simp [js] : js "&lt;" ⊆ js "&ampltgquo;") h)
    · split at h
      · exact .inl ((by simp [js] : js "&gt;" ⊆ js "&ampltgquo;") h)
      · split at h
        · exact .inl ((by simp [js] : js "&quot;" ⊆ js "&ampltgquo;") h)
        · obtain rfl := List.mem_singleton.mp h
          exact .inr ⟨rfl, by simp_all [js, unit]⟩

theorem mem_attr {d : UInt16} (h : d ∈ s.flatMap attrUnit) :
    d ∈ js "&ampltgquo;" ∨ d ∈ s ∧ d ∉ js "&<>\"" := by
  obtain ⟨c, hc, hd⟩ := List.mem_flatMap.mp h
  obtain hescape | ⟨rfl, hplain⟩ := mem_attrUnit hd
  · exact .inl hescape
  · exact .inr ⟨hc, hplain⟩

/-- The text of a link has none of the letters that are escaped in it. -/
theorem attr_free {d : UInt16} (hd : d ∈ js "<>\"") : d ∉ s.flatMap attrUnit := by
  have hescape : ∀ d ∈ js "<>\"", d ∉ js "&ampltgquo;" ∧ d ∈ js "&<>\"" := by
    simp [js]
  intro h
  obtain h | ⟨-, h⟩ := mem_attr h
  · exact (hescape d hd).1 h
  · exact h (hescape d hd).2

theorem breakLines_anchor (h : unit '\n' ∉ s) : breakLines (anchor s) = anchor s := by
  have hopen : unit '\n' ∉ js "<a href=\"" := by decide
  have hstyle : unit '\n' ∉ linkStyle := by simp [linkStyle, js, unit]
  have hclose : unit '\n' ∉ js "</a>" := by decide
  apply breakLines_of_free
  simp only [anchor, List.mem_append, not_or]
  exact ⟨⟨⟨⟨hopen, h⟩, hstyle⟩, h⟩, hclose⟩

/-- No escape is cut before a letter that no URL has. -/
theorem escape_split (h : escapeHtml s = m ++ t) (ht : ∀ c ∈ t.head?, isUrlUnit c = false) :
    ∃ u r, s = u ++ r ∧ m = escapeHtml u ∧ t = escapeHtml r := by
  induction s generalizing m with
  | nil =>
    obtain ⟨rfl, rfl⟩ := List.append_eq_nil_iff.mp h.symm
    exact ⟨[], [], rfl, rfl, rfl⟩
  | cons c s ih =>
    cases m with
    | nil => exact ⟨[], c :: s, rfl, rfl, h.symm⟩
    | cons d m =>
      rw [escapeHtml_cons] at h
      rcases List.append_eq_append_iff.mp h with ⟨e, hm, hs⟩ | ⟨e, hunit, rfl⟩
      · obtain ⟨u, r, rfl, rfl, rfl⟩ := ih hs
        exact ⟨c :: u, r, rfl, by rw [hm, escapeHtml_cons], rfl⟩
      · cases e with
        | nil =>
          rw [List.append_nil] at hunit
          exact ⟨[c], s, rfl, by rw [escapeHtml_cons, hunit]; exact (List.append_nil _).symm, rfl⟩
        | cons x e =>
          -- the escape would go on with a letter that no URL has
          have hx := ht x rfl
          by_cases hspecial : IsSpecial c
          · obtain ⟨-, -, hall⟩ := escapeUnit_special hspecial
            have hmem : x ∈ js "&ampltg;" := hall x (by rw [hunit]; simp)
            have hurl := List.all_eq_true.mp (show (js "&ampltg;").all isUrlUnit = true from rfl) x hmem
            rw [hurl] at hx
            cases hx
          · rw [escapeUnit_of_not hspecial] at hunit
            simp at hunit

/-- **Bare URLs**: what the second rule makes of an escaped text is pieces, and they show it. -/
theorem bare_pieces (escaped s : JSText) : ∃ pieces : List Piece,
    breakLines (replaceAll bareUrl (linkBare escaped) (escapeHtml s)) = pieces.flatMap Piece.html ∧
      pieces.flatMap Piece.shown = s := by
  induction hn : s.length using Nat.strong_induction_on generalizing s with
  | _ n ih =>
    subst hn
    cases s with
    | nil => exact ⟨[], rfl, rfl⟩
    | cons c s =>
      cases hsome : bareUrl (escapeHtml (c :: s)) with
      | none =>
        have hpass : ∀ a b, escapeUnit c = a ++ b → b ≠ [] → bareUrl (b ++ escapeHtml s) = none := by
          intro a b hsplit hb
          by_cases hspecial : IsSpecial c
          · obtain ⟨d, b, rfl⟩ := List.exists_cons_of_ne_nil hb
            obtain ⟨-, -, hall⟩ := escapeUnit_special hspecial
            have hmem : d ∈ js "&ampltg;" := hall d (by rw [hsplit]; simp)
            have hquiet : (js "&ampltg;").all (fun x => lower x != unit 'h') = true := rfl
            exact bareUrl_cons (bne_iff_ne.mp (List.all_eq_true.mp hquiet d hmem)) _
          · rw [escapeUnit_of_not hspecial] at hsplit
            cases a with
            | nil =>
              rw [escapeHtml_cons, escapeUnit_of_not hspecial, hsplit] at hsome
              exact hsome
            | cons x a =>
              simp at hsplit
              exact absurd hsplit.2.2 hb
        obtain ⟨pieces, hhtml, hshown⟩ := ih s.length (Nat.lt_succ_self _) s rfl
        refine ⟨Piece.text c :: pieces, ?_, congrArg (c :: ·) hshown⟩
        rw [escapeHtml_cons, (pass hpass _).1, breakLines_append, breakLines_escapeUnit, hhtml]
        rfl
      | some n =>
        obtain ⟨m, t, hs, rfl, hm, ht⟩ := bareUrl_some hsome
        obtain ⟨u, r, hraw, rfl, rfl⟩ := escape_split hs ht
        have hfeed : unit '\n' ∉ escapeHtml u := fun hmem => absurd (hm.2 _ hmem) (by decide)
        have hquote : unit '"' ∉ escapeHtml u := fun hmem => absurd (hm.2 _ hmem) (by decide)
        have hshort : r.length < (c :: s).length := by
          have hne : u ≠ [] := by
            rintro rfl
            exact hm.1 rfl
          rw [hraw, List.length_append]
          have hpos := List.length_pos_iff.mpr hne
          omega
        obtain ⟨pieces, hhtml, hshown⟩ := ih r.length hshort r rfl
        have hfound := (found hm.1 (hs ▸ hsome) (linkBare escaped)).1
        rw [hs, hfound, breakLines_append, hhtml, linkBare_eq hm]
        split
        · refine ⟨u.map Piece.text ++ pieces, ?_, ?_⟩
          · rw [breakLines_escapeHtml, List.flatMap_append]
          · rw [List.flatMap_append, shown_text, hshown, hraw]
        · refine ⟨Piece.link u :: pieces, ?_, ?_⟩
          · rw [breakLines_anchor hfeed, List.flatMap_cons, Piece.html, ← quoteHtml_escapeHtml,
              quoteHtml_of_free hquote]
          · rw [List.flatMap_cons, hshown, hraw]
            rfl

end Pieces

/-! ## Reading the HTML back -/

section Reading

variable {x y : JSText}

theorem textUnit_unique {c d : UInt16} (h : textUnit c ++ x = textUnit d ++ y) : c = d ∧ x = y := by
  simp only [textUnit] at h
  grind [js, unit]

theorem attrUnit_unique {c d : UInt16} (h : attrUnit c ++ x = attrUnit d ++ y) : c = d ∧ x = y := by
  have hquote : attrUnit (unit '"') = js "&quot;" := rfl
  have hother : ∀ c, c ≠ unit '"' → attrUnit c = escapeUnit c := by
    intro c hc
    rw [attrUnit, if_neg hc, escapeUnit]
  by_cases hc : c = unit '"'
  · by_cases hd : d = unit '"'
    · rw [hc, hd] at h
      exact ⟨hc.trans hd.symm, List.append_cancel_left h⟩
    · rw [hc, hquote, hother d hd, escapeUnit] at h
      grind [js, unit]
  · by_cases hd : d = unit '"'
    · rw [hd, hquote, hother c hc, escapeUnit] at h
      grind [js, unit]
    · rw [hother c hc, hother d hd, escapeUnit, escapeUnit] at h
      grind [js, unit]

theorem attrUnit_ne_nil (c : UInt16) : attrUnit c ≠ [] := by
  rw [attrUnit]
  grind [js, unit]

/-- The letters of a link. -/
def attrCode : PrefixCode UInt16 UInt16 := ⟨attrUnit, attrUnit_ne_nil, attrUnit_unique⟩

/-- No letter begins as a link does. -/
theorem textUnit_link {c : UInt16} : textUnit c ++ x ≠ js "<a href=\"" ++ y := by
  intro h
  simp only [textUnit] at h
  grind [js, unit]

theorem linkStyle_cons : ∃ t, linkStyle = unit '"' :: t := by
  simp [linkStyle, js, unit]

/-- A link is read back by its first quotation mark. -/
theorem anchor_unique {u v : JSText} (hu : unit '"' ∉ u) (hv : unit '"' ∉ v)
    (h : anchor u ++ x = anchor v ++ y) : u = v ∧ x = y := by
  obtain ⟨t, hstyle⟩ := linkStyle_cons
  simp only [anchor, List.append_assoc] at h
  have htail := List.append_cancel_left h
  rw [hstyle, List.cons_append, List.cons_append] at htail
  obtain ⟨rfl, hrest⟩ := cut_inj hu hv htail
  exact ⟨rfl, List.append_cancel_left (List.append_cancel_left (List.append_cancel_left hrest))⟩

theorem html_ne_nil (p : Piece) : p.html ≠ [] := by
  cases p with
  | text c =>
    simp only [Piece.html, textUnit]
    grind [js, unit]
  | link u => exact List.cons_ne_nil _ _

theorem html_unique {p q : Piece} (h : p.html ++ x = q.html ++ y) : p = q ∧ x = y := by
  cases p with
  | text c =>
    cases q with
    | text d =>
      obtain ⟨rfl, hrest⟩ := textUnit_unique h
      exact ⟨rfl, hrest⟩
    | link v =>
      simp only [Piece.html, anchor, List.append_assoc] at h
      exact absurd h textUnit_link
  | link u =>
    cases q with
    | text d =>
      simp only [Piece.html, anchor, List.append_assoc] at h
      exact absurd h.symm textUnit_link
    | link v =>
      obtain ⟨hattr, hrest⟩ := anchor_unique (attr_free (by decide)) (attr_free (by decide)) h
      have huv : u = v := attrCode.encode_inj hattr
      exact ⟨congrArg Piece.link huv, hrest⟩

/-- The pieces of HTML. -/
def pieceCode : PrefixCode Piece UInt16 := ⟨Piece.html, html_ne_nil, html_unique⟩

end Reading

/-! ## Links in brackets -/

section Links

variable {V t y m : JSText} {url : JSText}

/-- What the second rule makes of a link of the first. -/
theorem replace_anchor (f : JSText → JSText) (u y : JSText) : replaceAll bareUrl f (anchor u ++ y) =
    js "<a href=\"" ++ (replaceAll bareUrl f u ++ (linkStyle ++ (replaceAll bareUrl f u ++
      (js "</a>" ++ replaceAll bareUrl f y)))) := by
  obtain ⟨t, hstyle⟩ := linkStyle_cons
  have hquiet : ∀ c ∈ linkStyle, lower c ≠ unit 'h' := by
    simp [linkStyle, js, unit, lower]
  have hhead : ∀ x, ∀ c ∈ (linkStyle ++ x).head?, isUrlUnit c = false := by
    intro x c hc
    rw [hstyle] at hc
    cases hc
    rfl
  have hhref : ∀ x, replaceAll bareUrl f (js "<a href=\"" ++ x) =
      js "<a href=\"" ++ replaceAll bareUrl f x := by
    intro x
    have hsplit : ∀ z : JSText, js "<a href=\"" ++ z =
        js "<a " ++ unit 'h' :: unit 'r' :: (js "ef=\"" ++ z) := fun z => rfl
    rw [hsplit, replace_quiet, replaceAll_none (bareUrl_second (by decide) _),
      replaceAll_none (bareUrl_cons (by decide) _), replace_quiet, ← hsplit]
    · simp [js, unit, lower]
    · simp [js, unit, lower]
  have hclose : replaceAll bareUrl f (u ++ (js "</a>" ++ y)) =
      replaceAll bareUrl f u ++ (js "</a>" ++ replaceAll bareUrl f y) := by
    rw [replace_append _ f u, replace_quiet _ f y]
    · simp [js, unit, lower]
    · intro c hc
      cases hc
      rfl
  simp only [anchor, List.append_assoc]
  rw [hhref, replace_append (hhead _) f u, replace_quiet hquiet, hclose]

/-- The first rule on a URL in brackets. -/
theorem linkBracketed_url (h : IsBracketUrl url) :
    linkBracketed (unit '[' :: (escapeHtml url ++ [unit ']'])) =
      unit '[' :: (anchor ((clean url).flatMap attrUnit) ++ [unit ']']) := by
  have hinner : inner (unit '[' :: (escapeHtml url ++ [unit ']'])) = escapeHtml url := by
    rw [inner, List.tail_cons, List.dropLast_concat]
  have hscheme : (scheme (clean (escapeHtml url))).isSome := by
    apply scheme_clean
    rw [scheme_escapeHtml]
    exact h.1
  rw [linkBracketed, hinner, if_pos hscheme, clean_escapeHtml, quoteHtml_escapeHtml]
  rfl

/-- The HTML of a text, for the text in which the second rule looks for links. -/
def htmlOf (V t : JSText) : JSText :=
  breakLines (replaceAll bareUrl (linkBare V) (replaceAll bracketed linkBracketed (escapeHtml t)))

/-- **One URL in brackets**: the pieces before it, what becomes of the link, and the rest. -/
theorem htmlOf_bracket {seg rest : JSText} (hurl : IsBracketUrl url)
    (hfirst : replaceAll bracketed linkBracketed (escapeHtml t) =
      escapeHtml seg ++ (linkBracketed (unit '[' :: (escapeHtml url ++ [unit ']'])) ++
        replaceAll bracketed linkBracketed (escapeHtml rest))) :
    ∃ pieces : List Piece, pieces.flatMap Piece.shown = seg ++ [unit '['] ∧
      htmlOf V t = pieces.flatMap Piece.html ++ (js "<a href=\"" ++
        (breakLines (replaceAll bareUrl (linkBare V) ((clean url).flatMap attrUnit)) ++
          (linkStyle ++ (breakLines (replaceAll bareUrl (linkBare V) ((clean url).flatMap attrUnit)) ++
            (js "</a>" ++ unit ']' :: htmlOf V rest))))) := by
  obtain ⟨pieces, hhtml, hshown⟩ := bare_pieces V (seg ++ [unit '['])
  refine ⟨pieces, hshown, ?_⟩
  have hbracket : escapeHtml (seg ++ [unit '[']) = escapeHtml seg ++ [unit '['] := by
    rw [escapeHtml_append]
    rfl
  have hwhole : escapeHtml seg ++ (linkBracketed (unit '[' :: (escapeHtml url ++ [unit ']'])) ++
      replaceAll bracketed linkBracketed (escapeHtml rest)) =
      escapeHtml (seg ++ [unit '[']) ++ (anchor ((clean url).flatMap attrUnit) ++
        unit ']' :: replaceAll bracketed linkBracketed (escapeHtml rest)) := by
    rw [linkBracketed_url hurl, hbracket]
    simp only [List.append_assoc, List.cons_append, List.nil_append]
  have hclose : replaceAll bareUrl (linkBare V)
      (unit ']' :: replaceAll bracketed linkBracketed (escapeHtml rest)) =
      unit ']' :: replaceAll bareUrl (linkBare V) (replaceAll bracketed linkBracketed (escapeHtml rest)) :=
    replaceAll_none (bareUrl_cons (by decide) _)
  have hhead : ∀ c ∈ (anchor ((clean url).flatMap attrUnit) ++
      unit ']' :: replaceAll bracketed linkBracketed (escapeHtml rest)).head?, isUrlUnit c = false := by
    intro c hc
    cases hc
    rfl
  have hstyle : breakLines linkStyle = linkStyle :=
    breakLines_of_free (by simp [linkStyle, js, unit])
  rw [htmlOf, hfirst, hwhole, replace_append hhead, replace_anchor, hclose, breakLines_append, hhtml]
  simp only [breakLines_append, hstyle]
  rfl

theorem isUrl_of_match {s : JSText} (hm : m ∈ matchesFrom bareUrl 0 s) : IsUrl m ∧ m <:+: s := by
  obtain ⟨a, t, n, rfl, hfind, rfl⟩ := mem_matchesFrom bareUrl 0 s m hm
  obtain ⟨m, t, rfl, rfl, hurl, -⟩ := bareUrl_some hfind
  rw [List.take_left]
  exact ⟨hurl, a, t, List.append_assoc a m t⟩

/-- The second rule leaves the URL of a link, or puts a tag into it. -/
theorem kept_or_changed (V : JSText) {u : JSText} (hu : unit '\n' ∉ u) :
    ((∀ m ∈ matchesFrom bareUrl 0 (u.flatMap attrUnit), linkBare V m = m) ∧
      breakLines (replaceAll bareUrl (linkBare V) (u.flatMap attrUnit)) = u.flatMap attrUnit) ∨
    (¬(∀ m ∈ matchesFrom bareUrl 0 (u.flatMap attrUnit), linkBare V m = m) ∧
      ∃ a x, unit '"' ∉ a ∧
        breakLines (replaceAll bareUrl (linkBare V) (u.flatMap attrUnit)) = a ++ unit '<' :: x) := by
  have hfeed : unit '\n' ∉ u.flatMap attrUnit := by
    intro h
    obtain h | ⟨h, -⟩ := mem_attr h
    · exact absurd h (by decide)
    · exact hu h
  obtain ⟨hall, heq⟩ | ⟨a, m, b, hm, hne, ha, heq⟩ :=
    replaceAll_cases bareUrl (fun t n h => (bareUrl_length t n h).1) (linkBare V) (u.flatMap attrUnit)
  · exact .inl ⟨hall, by rw [heq, breakLines_of_free hfeed]⟩
  · refine .inr ⟨fun h => hne (h m hm), a, ?_⟩
    have hlink : linkBare V m = anchor m := by
      rw [linkBare_eq (isUrl_of_match hm).1,
        if_neg fun h => hne ((linkBare_fixed (isUrl_of_match hm).1).mpr h)]
    rw [heq, breakLines_append, breakLines_of_free fun h => hfeed (ha.subset h), hlink]
    exact ⟨_, fun h => attr_free (by decide) (ha.subset h), rfl⟩

/-- **A text without changed URLs** is what its HTML shows. -/
theorem htmlOf_iff (V t : JSText) :
    (∃ pieces : List Piece, htmlOf V t = pieces.flatMap Piece.html ∧ pieces.flatMap Piece.shown = t) ↔
      ∀ url ∈ bracketUrls (escapeHtml t), (∀ c ∈ url, isWhite c = false) ∧
        ∀ m ∈ matchesFrom bareUrl 0 (quoteHtml url), linkBare V m = m := by
  induction hn : t.length using Nat.strong_induction_on generalizing t with
  | _ n ih =>
    subst hn
    obtain ⟨hnone, hnil⟩ | ⟨seg, url, rest, ht, hurl, hfirst, hrest⟩ := first_bracket t
    · refine iff_of_true ?_ fun url hurl => ?_
      · rw [htmlOf, hnone]
        exact bare_pieces V t
      · rw [hnil] at hurl
        cases hurl
    · have hshort : rest.length < t.length := by
        rw [ht]
        simp
        omega
      have ih := ih rest.length hshort rest rfl
      obtain ⟨before, hshown, hhtml⟩ : ∃ pieces : List Piece, _ :=
        htmlOf_bracket (V := V) hurl (hfirst linkBracketed)
      have hfree : ∀ c ∈ clean url, isWhite c = false := clean_free url
      have hfeed : unit '\n' ∉ clean url := fun h => absurd (hfree _ h) (by decide)
      rw [hrest, List.forall_mem_cons, ← ih, hhtml]
      constructor
      · rintro ⟨pieces, hpieces, hwhole⟩
        -- the pieces of what stands before the link, and the others
        obtain ⟨after, rfl, hafter⟩ : ∃ after, pieces = before ++ after ∧ _ =
            after.flatMap Piece.html := pieceCode.strip hpieces.symm
        cases after with
        | nil => cases hafter
        | cons p after =>
          cases p with
          | text c => exact absurd hafter.symm textUnit_link
          | link v =>
            simp only [List.flatMap_cons, Piece.html, anchor, List.append_assoc] at hafter
            have hbody := List.append_cancel_left hafter
            obtain ⟨w, hstyle⟩ := linkStyle_cons
            rw [hstyle, List.cons_append, List.cons_append] at hbody
            obtain ⟨hkept, hlink⟩ | ⟨-, a, x, ha, hlink⟩ := kept_or_changed V hfeed
            · rw [hlink] at hbody
              obtain ⟨hattr, htail⟩ := cut_inj (attr_free (by decide)) (attr_free (by decide)) hbody
              obtain rfl : clean url = v := attrCode.encode_inj hattr
              have hclosed :=
                List.append_cancel_left (List.append_cancel_left (List.append_cancel_left htail))
              obtain ⟨after, rfl, hrest⟩ : ∃ rest, after = [Piece.text (unit ']')] ++ rest ∧ _ =
                  rest.flatMap Piece.html := pieceCode.strip hclosed.symm
              have htext : clean url ++ unit ']' :: after.flatMap Piece.shown =
                  url ++ unit ']' :: rest := by
                rw [List.flatMap_append, hshown, ht, List.append_assoc] at hwhole
                exact (List.cons.inj (List.append_cancel_left hwhole)).2
              obtain ⟨hclean, hshown⟩ := cut_inj (fun h => hurl.2 (mem_clean h)) hurl.2 htext
              rw [hclean] at hkept
              rw [quoteHtml_escapeHtml]
              exact ⟨⟨clean_iff.mp hclean, hkept⟩, after, hrest, hshown⟩
            · -- a tag would stand in the attribute
              rw [hlink, List.append_assoc] at hbody
              exact absurd hbody (cut_ne (by decide) ha (attr_free (by decide)))
      · rintro ⟨⟨hwhite, hkept⟩, after, hafter, hwhole⟩
        have hclean : clean url = url := clean_iff.mpr hwhite
        rw [quoteHtml_escapeHtml] at hkept
        obtain ⟨-, hlink⟩ | ⟨hchanged, -⟩ := kept_or_changed V hfeed
        · refine ⟨before ++ Piece.link url :: Piece.text (unit ']') :: after, ?_, ?_⟩
          · rw [hlink, hclean, hafter, List.flatMap_append, List.flatMap_cons, List.flatMap_cons]
            simp only [Piece.html, anchor, List.append_assoc]
            rfl
          · rw [List.flatMap_append, hshown, List.flatMap_cons, List.flatMap_cons, hwhole, ht]
            simp [Piece.shown]
        · rw [hclean] at hchanged
          exact absurd hkept hchanged

end Links

/-! ## What the second rule finds in the text of the first -/

section Inclusion

variable {t m u E : JSText}

theorem not_mem_hrefOf {d : UInt16} (hm : IsUrl m) (hd : isUrlUnit d = false) (hquote : d ≠ unit '"') :
    d ∉ hrefOf m := by
  have hname : (js "href=").all isUrlUnit = true := rfl
  intro h
  simp only [hrefOf, List.append_assoc, List.mem_append] at h
  obtain h | h | h := h
  · obtain h | h : d ∈ js "href=" ∨ d ∈ [unit '"'] := List.mem_append.mp h
    · exact absurd (List.all_eq_true.mp hname d h) (by simp [hd])
    · exact hquote (List.mem_singleton.mp h)
  · exact absurd (hm.2 d h) (by simp [hd])
  · exact hquote (List.mem_singleton.mp h)

/-- Two attributes, one in the other, are the same. -/
theorem hrefOf_inj (hm : unit '"' ∉ m) (hu : unit '"' ∉ u) : hrefOf m <:+: hrefOf u ↔ m = u := by
  constructor
  · rintro ⟨a, b, h⟩
    have hname : unit '"' ∉ js "href=" := by decide
    have hform : ∀ v, hrefOf v = js "href=" ++ unit '"' :: (v ++ [unit '"']) := fun v => rfl
    simp only [hform, List.append_assoc, List.cons_append] at h
    have hcount := congrArg (List.count (unit '"')) h
    simp only [List.count_append, List.count_cons_self, List.count_eq_zero_of_not_mem hm,
      List.count_eq_zero_of_not_mem hu, List.count_eq_zero_of_not_mem hname, List.count_nil] at hcount
    have ha : unit '"' ∉ a := List.count_eq_zero.mp (by omega)
    have hfront : unit '"' ∉ a ++ js "href=" := by simp [ha, hname]
    rw [← List.append_assoc] at h
    obtain ⟨-, hbody⟩ := cut_inj hfront hname h
    exact (cut_inj hm hu hbody).1
  · rintro rfl
    exact List.infix_rfl

theorem linkStyle_form : ∃ w, linkStyle = unit '"' :: unit ' ' :: (w ++ [unit '>']) ∧ unit 'h' ∉ w :=
  ⟨js "target=\"_blank\" rel=\"noopener noreferrer\" style=\"color:#2563eb;text-decoration:underline;word-break:break-all;\"",
    by simp [linkStyle, js, unit], by simp [js, unit]⟩

/-- An attribute with a URL stands before a link, or is the attribute of the link. -/
theorem hrefOf_anchor (hm : IsUrl m) (hgt : unit '>' ∉ m) (hu : unit '"' ∉ u) (E : JSText) :
    hrefOf m <:+: E ++ anchor u ↔ hrefOf m <:+: E ∨ m = u := by
  have hname : unit 'h' ∈ hrefOf m := List.mem_cons_self
  have hquote : unit '"' ∈ hrefOf m := List.mem_append_right _ (List.mem_singleton_self _)
  have hfree : unit '>' ∉ hrefOf m := by
    intro h
    simp only [hrefOf, List.append_assoc, List.mem_append] at h
    obtain h | h | h := h
    · exact absurd h (by decide)
    · exact hgt h
    · exact absurd h (by decide)
  obtain ⟨w, hstyle, hw⟩ := linkStyle_form
  have hform : E ++ anchor u = E ++ unit '<' :: (js "a" ++ unit ' ' :: (hrefOf u ++ unit ' ' ::
      (w ++ unit '>' :: (u ++ js "</a>")))) := by
    simp only [anchor, hstyle, hrefOf, List.append_assoc, List.cons_append]
    rfl
  have htext : unit '"' ∉ u ++ js "</a>" := by
    rw [List.mem_append, not_or]
    exact ⟨hu, by decide⟩
  rw [hform, infix_cut (not_mem_hrefOf hm rfl (by decide)), infix_cut (not_mem_hrefOf hm rfl (by decide)),
    infix_cut (not_mem_hrefOf hm rfl (by decide)), infix_cut hfree,
    hrefOf_inj (fun h => absurd (hm.2 _ h) (by decide)) hu]
  constructor
  · rintro (h | h | h | h | h)
    · exact .inl h
    · exact absurd (h.subset hname) (by decide)
    · exact .inr h
    · exact absurd (h.subset hname) hw
    · exact absurd (h.subset hquote) htext
  · rintro (h | h)
    · exact .inl h
    · exact .inr (.inr (.inl h))

/-- **Where the second rule finds an attribute** for a URL: it is the one of a URL in brackets, or
stands in the text. -/
theorem hrefOf_infix (hm : IsUrl m) (hgt : unit '>' ∉ m) (t : JSText)
    (hwhite : ∀ url ∈ bracketUrls (escapeHtml t), ∀ c ∈ url, isWhite c = false) :
    hrefOf m <:+: replaceAll bracketed linkBracketed (escapeHtml t) ↔
      m ∈ (bracketUrls (escapeHtml t)).map quoteHtml ∨ hrefOf m <:+: outside (escapeHtml t) := by
  induction hn : t.length using Nat.strong_induction_on generalizing t with
  | _ n ih =>
    subst hn
    obtain ⟨hnone, hnil⟩ | ⟨seg, url, rest, ht, hurl, hfirst, hrest⟩ := first_bracket t
    · rw [outside, hnone, hnone, hnil]
      simp
    · have hshort : rest.length < t.length := by
        rw [ht]
        simp
        omega
      rw [hrest, List.forall_mem_cons] at hwhite
      have hclean : clean url = url := clean_iff.mpr hwhite.1
      have hlink : replaceAll bracketed linkBracketed (escapeHtml t) =
          ((escapeHtml seg ++ [unit '[']) ++ anchor (quoteHtml (escapeHtml url))) ++
            unit ']' :: replaceAll bracketed linkBracketed (escapeHtml rest) := by
        rw [hfirst, linkBracketed_url hurl, hclean, quoteHtml_escapeHtml]
        simp only [List.append_assoc, List.cons_append, List.nil_append]
      have houtside : outside (escapeHtml t) =
          (escapeHtml seg ++ [unit '[']) ++ unit ']' :: outside (escapeHtml rest) := by
        rw [outside, hfirst, List.append_assoc]
        rfl
      have hquote : unit '"' ∉ quoteHtml (escapeHtml url) := by
        rw [quoteHtml_escapeHtml]
        exact attr_free (by decide)
      have hclose : unit ']' ∉ hrefOf m := not_mem_hrefOf hm rfl (by decide)
      rw [hlink, houtside, hrest, infix_cut hclose, infix_cut hclose, hrefOf_anchor hm hgt hquote,
        ih rest.length hshort rest hwhite.2 rfl, List.map_cons, List.mem_cons]
      tauto

theorem escaped_of_mem (t : JSText) : ∀ url ∈ bracketUrls (escapeHtml t), ∃ raw, url = escapeHtml raw := by
  induction hn : t.length using Nat.strong_induction_on generalizing t with
  | _ n ih =>
    subst hn
    obtain ⟨-, hnil⟩ | ⟨seg, url, rest, ht, -, -, hrest⟩ := first_bracket t
    · rw [hnil]
      exact fun url hurl => absurd hurl List.not_mem_nil
    · rw [hrest, List.forall_mem_cons]
      refine ⟨⟨url, rfl⟩, ih rest.length ?_ rest rfl⟩
      rw [ht]
      simp
      omega

end Inclusion

/-! ## When the HTML is faithful -/

/-- **The HTML of a decrypted text** is escaped letters, line breaks and complete links that show
the text exactly when the rules change no URL in brackets. -/
theorem linkify_faithful_iff (text : JSText) :
    Faithful (linkify text) text ↔ Untouched (escapeHtml text) := by
  have hfixed : ∀ url ∈ bracketUrls (escapeHtml text), ∀ m ∈ matchesFrom bareUrl 0 (quoteHtml url),
      (∀ url ∈ bracketUrls (escapeHtml text), ∀ c ∈ url, isWhite c = false) →
      (linkBare (replaceAll bracketed linkBracketed (escapeHtml text)) m = m ↔
        m.length < 10 ∨ m ∈ (bracketUrls (escapeHtml text)).map quoteHtml ∨
          hrefOf m <:+: outside (escapeHtml text)) := by
    intro url hurl m hm hwhite
    obtain ⟨raw, rfl⟩ := escaped_of_mem text url hurl
    rw [quoteHtml_escapeHtml] at hm
    obtain ⟨hisUrl, hstands⟩ := isUrl_of_match hm
    have hgt : unit '>' ∉ m := fun h => attr_free (by decide) (hstands.subset h)
    rw [linkBare_fixed hisUrl, hrefOf_infix hisUrl hgt text hwhite]
  have hlinked : Faithful (linkify text) text ↔ ∀ url ∈ bracketUrls (escapeHtml text),
      (∀ c ∈ url, isWhite c = false) ∧ ∀ m ∈ matchesFrom bareUrl 0 (quoteHtml url),
        linkBare (replaceAll bracketed linkBracketed (escapeHtml text)) m = m := htmlOf_iff _ text
  rw [hlinked]
  constructor
  · intro h
    have hwhite := fun url hurl => (h url hurl).1
    exact ⟨hwhite, fun url hurl m hm => (hfixed url hurl m hm hwhite).mp ((h url hurl).2 m hm)⟩
  · rintro ⟨hwhite, hnested⟩ url hurl
    exact ⟨hwhite url hurl, fun m hm => (hfixed url hurl m hm hwhite).mpr (hnested url hurl m hm)⟩

/-- A URL in brackets with a parenthesis in it is linked twice, the second time in the attribute. -/
theorem nested_not_faithful :
    ¬Faithful (linkify (js "[https://a.com/(x)]")) (js "[https://a.com/(x)]") := by
  intro h
  have hurl := ((htmlOf_iff _ _).mp h (js "https://a.com/(x)") (by decide)).2
  have hfixed := hurl (js "https://a.com/(x") (by decide)
  revert hfixed
  decide +kernel

end E2Mail.Frontend.Linkify
