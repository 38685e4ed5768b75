import E2Mail.Backend.AccountRouting
import E2Mail.Frontend.MimeText
import E2Mail.Lib.Decimal

/-!
# Inline images

The frame that shows a mail puts the URLs of attachments in the place of the `cid:` references
in the HTML: one attachment after the other, by a regular expression made of its Content-ID.

* `rewriteCid` — the loop over the attachments;
* `rewritten` — the references of a document replaced by URLs;
* `Right` — all references to attachments are replaced by URLs that address them;
* `Clear` — every match of a pattern is a reference, and the account is the default one;
* `right_of_clear` — then the rewriting is right.
-/

namespace E2Mail.Frontend.CidImages

open Lib Pgp

/-! ## URLs -/

/-- The letters that `encodeURIComponent` leaves as they are. -/
def isUnreserved (c : UInt16) : Bool :=
  (48 ≤ c && c ≤ 57) || (65 ≤ c && c ≤ 90) || (97 ≤ c && c ≤ 122) || (js "-_.!~*'()").contains c

/-- A code point in UTF-8. -/
def utf8Bytes (n : Nat) : List Nat :=
  if n < 0x80 then [n]
  else if n < 0x800 then [0xC0 + n / 0x40, 0x80 + n % 0x40]
  else if n < 0x10000 then [0xE0 + n / 0x1000, 0x80 + n / 0x40 % 0x40, 0x80 + n % 0x40]
  else [0xF0 + n / 0x40000, 0x80 + n / 0x1000 % 0x40, 0x80 + n / 0x40 % 0x40, 0x80 + n % 0x40]

/-- A hexadecimal digit. -/
def hexUnit (n : Nat) : UInt16 := UInt16.ofNat (if n < 10 then 48 + n else 55 + n)

/-- `%XX` for every byte of a code point. -/
def percent (n : Nat) : JSText :=
  (utf8Bytes n).flatMap fun b => [unit '%', hexUnit (b / 16 % 16), hexUnit (b % 16)]

/-- `encodeURIComponent`; half a surrogate pair is an exception. -/
def encodeURIComponent : JSText → Option JSText
  | [] => some []
  | c :: s =>
    if isUnreserved c then (encodeURIComponent s).map (c :: ·)
    else if c < 0xD800 || 0xDFFF < c then (encodeURIComponent s).map (percent c.toNat ++ ·)
    else
      match s with
      | [] => none
      | d :: s =>
        if c < 0xDC00 && 0xDC00 ≤ d && d ≤ 0xDFFF then
          (encodeURIComponent s).map
            (percent (0x10000 + (c.toNat - 0xD800) * 0x400 + (d.toNat - 0xDC00)) ++ ·)
        else none

/-- A number in a template. -/
def number (n : Nat) : JSText := (decimal n).map fun b => UInt16.ofNat b.toNat

/-- `accountQS`; no account is an empty one. -/
def accountQuery (account : JSText) : Option JSText :=
  if account = [] then some [] else (encodeURIComponent account).map (js "&account=" ++ ·)

/-- `mailApi.getAttachmentUrl`. -/
def getAttachmentUrl (uid : Nat) (attId folder account : JSText) : Option JSText := do
  let accountQS ← accountQuery account
  let attId ← encodeURIComponent attId
  let folder ← encodeURIComponent folder
  return js "/api/mail/messages/" ++ number uid ++ js "/attachments/" ++ attId ++ js "?folder=" ++
    folder ++ accountQS

/-! ## Patterns -/

/-- What the language makes of a pattern with the flags `g` and `i`. -/
structure RegExps where
  /-- what `i` makes of a code unit -/
  canonicalize : UInt16 → UInt16
  ascii : ∀ c < 128, canonicalize c = if 97 ≤ c ∧ c ≤ 122 then c - 32 else c
  beyond : ∀ c, 128 ≤ c → 128 ≤ canonicalize c
  /-- `content.replace` for a pattern with syntax characters; an exception if it is none -/
  syntactic : JSText → Option (JSText → JSText → JSText)

/-- The syntax characters, but for the full stop. -/
def isSyntax (c : UInt16) : Bool := (js "^$\\*+?()[]\x7b\x7d|").contains c

/-- The ends of lines. -/
def isLineEnd (c : UInt16) : Bool := c == 10 || c == 13 || c == 0x2028 || c == 0x2029

/-- A pattern without syntax characters but full stops. -/
def Plain (pattern : JSText) : Prop := ∀ c ∈ pattern, isSyntax c = false

instance (pattern : JSText) : Decidable (Plain pattern) :=
  decidable_of_iff (pattern.all fun c => !isSyntax c) (by simp [Plain])

variable (R : RegExps)

/-- A letter of a plain pattern and one of a text. -/
def RegExps.fits (c d : UInt16) : Bool :=
  if c = unit '.' then !isLineEnd d else R.canonicalize d == R.canonicalize c

/-- A plain pattern. -/
def RegExps.plain (pattern : JSText) : RegExp :=
  pattern.foldr (fun c r => .seq (.letter (R.fits c)) r) .empty

/-- `content.replace(new RegExp(pattern, 'gi'), url)`. -/
def RegExps.replace (pattern url content : JSText) : Option JSText :=
  if Plain pattern then some (Regex.replaceAll (R.plain pattern) (fun m => substitute m url) content)
  else (R.syntactic pattern).map fun f => f content url

/-! ## The loop -/

/-- `AttachmentInfo`, what names an attachment. -/
structure AttachmentInfo where
  id : JSText
  /-- empty if it is not there -/
  contentId : JSText
  deriving DecidableEq

/-- `att.contentId || att.id`. -/
def AttachmentInfo.targetId (att : AttachmentInfo) : JSText :=
  if att.contentId ≠ [] then att.contentId else att.id

/-- The URL that the frame puts in: it knows no account. -/
def inlineUrl (uid : Nat) (folder target : JSText) : Option JSText :=
  getAttachmentUrl uid target folder []

/-- The loop over the attachments. -/
def rewriteCid (uid : Nat) (folder : JSText) : List AttachmentInfo → JSText → Option JSText
  | [], content => some content
  | att :: attachments, content =>
    if att.targetId = [] then rewriteCid uid folder attachments content
    else do
      let url ← inlineUrl uid folder att.targetId
      let content ← R.replace (js "cid:" ++ att.targetId) url content
      rewriteCid uid folder attachments content

/-! ## References -/

/-- What a reference does not go beyond: blanks, quotes and brackets. -/
def ends (c : UInt16) : Bool := isWhite c || (js "\"'<>()").contains c

/-- A reference: `cid:` in any case, and what comes up to its end. -/
def RegExps.reference (s : JSText) : Option Nat :=
  if (s.take 4).map R.canonicalize = (js "cid:").map R.canonicalize then
    some (4 + ((s.drop 4).takeWhile fun c => !ends c).length)
  else none

/-- What a reference refers to. -/
def idOf (m : JSText) : JSText := m.drop 4

/-- A reference, with its URL if there is one. -/
def resolved (ids : List JSText) (url : JSText → JSText) (m : JSText) : JSText :=
  if idOf m ∈ ids then url (idOf m) else m

/-- The document with the references to these ids replaced, and nothing else. -/
def rewritten (ids : List JSText) (url : JSText → JSText) (html : JSText) : JSText :=
  Pattern.replaceAll R.reference (resolved ids url) html

/-- The Content-IDs of attachments. -/
def contentIds (attachments : List AttachmentInfo) : List JSText :=
  (attachments.map AttachmentInfo.contentId).filter fun cid => cid ≠ []

/-- The document refers to an attachment by this Content-ID. -/
def RegExps.RefersTo (attachments : List AttachmentInfo) (html cid : JSText) : Prop :=
  cid ∈ contentIds attachments ∧ ∃ p ∈ Pattern.places R.reference html, idOf p.2 = cid

/-- A string of the server. -/
def ofString (s : String) : JSText := s.toList.flatMap fun c => codeUnits c.toNat

/-- The account that a request for a URL acts on, when it names this one or none. -/
def accountOf (sess : Backend.Session) (account : String) : String :=
  Backend.resolveAccountID { endpoint := .mail, account } sess

/-- The URL addresses an attachment of this account, folder and message. -/
def Addresses (sess : Backend.Session) (account : String) (uid : Nat) (folder cid url : JSText) :
    Prop :=
  ∃ name, getAttachmentUrl uid cid folder (ofString name) = some url ∧ accountOf sess name = account

/-- **The rewriting is right**: every reference to the Content-ID of an attachment is replaced by a
URL that addresses it, and the rest of the document stays as it is. -/
def Right (sess : Backend.Session) (account : String) (uid : Nat) (folder : JSText)
    (attachments : List AttachmentInfo) (html : JSText) : Prop :=
  ∃ url : JSText → JSText,
    (∀ cid, R.RefersTo attachments html cid → Addresses sess account uid folder cid (url cid)) ∧
      rewriteCid R uid folder attachments html = some (rewritten R (contentIds attachments) url html)

/-- The URLs of the frame. -/
def frameUrl (uid : Nat) (folder cid : JSText) : JSText := (inlineUrl uid folder cid).getD []

/-- A plain pattern, found at the beginning of a text. -/
def RegExps.plainAt (pattern s : JSText) : Option Nat :=
  if pattern.length ≤ s.length ∧ (List.zipWith R.fits pattern s).all id then some pattern.length else none

/-- The Content-IDs that have had their turn. -/
def doneIds (attachments before : List AttachmentInfo) : List JSText :=
  (before.map AttachmentInfo.targetId).filter fun target => target ∈ contentIds attachments

/-- In a document, the pattern that an id makes matches nothing but references to it, and only if
it is a Content-ID. -/
structure Harmless (uid : Nat) (folder : JSText) (attachments : List AttachmentInfo)
    (target content : JSText) : Prop where
  plain : Plain target
  url : (inlineUrl uid folder target).isSome
  whole : ∀ p ∈ Pattern.places (R.plainAt (js "cid:" ++ target)) content,
    target ∈ contentIds attachments ∧
      ∃ q ∈ Pattern.places R.reference content, q.1 = p.1 ∧ idOf q.2 = target

/-- **Nothing goes astray**: the account is the default one, or not needed, and every attachment
is harmless in the document with the references before its turn put right. -/
structure Clear (sess : Backend.Session) (account : String) (uid : Nat) (folder : JSText)
    (attachments : List AttachmentInfo) (html : JSText) : Prop where
  account : accountOf sess "" = account ∨ ∀ cid, ¬R.RefersTo attachments html cid
  turn : ∀ before att after, attachments = before ++ att :: after → att.targetId ≠ [] →
    Harmless R uid folder attachments att.targetId
      (rewritten R (doneIds attachments before) (frameUrl uid folder) html)

/-! ## What a plain pattern matches -/

section Patterns

variable {R}

theorem plainAt_cons (c d : UInt16) (pattern s : JSText) :
    R.plainAt (c :: pattern) (d :: s) =
      if R.fits c d then (R.plainAt pattern s).map (· + 1) else none := by
  rw [RegExps.plainAt, RegExps.plainAt, List.zipWith_cons_cons, List.all_cons, List.length_cons,
    List.length_cons]
  cases R.fits c d <;> simp

theorem plainAt_bounds {pattern s : JSText} {n : Nat} (h : R.plainAt pattern s = some n) :
    n = pattern.length ∧ n ≤ s.length := by
  rw [RegExps.plainAt] at h
  split at h
  · rename_i hfits
    cases h
    exact ⟨rfl, hfits.1⟩
  · cases h

/-- The matcher on a plain pattern. -/
theorem run_plain {β : Type} (pattern : JSText) (before s : JSText) (groups : List (Nat × JSText))
    (k : Regex.Pos UInt16 → Option β) :
    (R.plain pattern).run ⟨before, s, groups⟩ k =
      (R.plainAt pattern s).bind fun n => k ⟨(s.take n).reverse ++ before, s.drop n, groups⟩ := by
  induction pattern generalizing before s with
  | nil => rfl
  | cons c pattern ih =>
    cases s with
    | nil => rfl
    | cons d s =>
      have hstep : (R.plain (c :: pattern)).run ⟨before, d :: s, groups⟩ k =
          if R.fits c d then (R.plain pattern).run ⟨d :: before, s, groups⟩ k else none := rfl
      rw [hstep, ih, plainAt_cons]
      split
      · cases R.plainAt pattern s with
        | none => rfl
        | some n => simp
      · rfl

theorem matchAt_plain (pattern before s : JSText) :
    (R.plain pattern).matchAt before s =
      (R.plainAt pattern s).map fun n => ⟨before, s.take n, s.drop n, []⟩ := by
  rw [Regex.matchAt, run_plain]
  cases h : R.plainAt pattern s with
  | none => rfl
  | some n =>
    have hle := (plainAt_bounds h).2
    simp only [Option.bind_some, Option.map_some, List.length_drop]
    congr 3
    omega

/-- An expression that finds what a finder finds replaces as it does. -/
theorem replaceFrom_of_matchAt {r : RegExp} {find : JSText → Option Nat}
    {f : Regex.Match UInt16 → JSText} {g : JSText → JSText}
    (h : ∀ before s, r.matchAt before s = (find s).map fun n => ⟨before, s.take n, s.drop n, []⟩)
    (hfind : ∀ s n, find s = some n → 0 < n ∧ n ≤ s.length) (hf : ∀ m, f m = g m.text)
    (skip : Nat) (before s : JSText) :
    Regex.replaceFrom r f skip before s = Pattern.replaceFrom find g skip s := by
  induction s generalizing skip before with
  | nil =>
    cases skip with
    | succ skip => rfl
    | zero =>
      rw [Regex.replaceFrom, h]
      cases hnil : find [] with
      | none => rfl
      | some n =>
        obtain ⟨hpos, hle⟩ := hfind _ _ hnil
        exact absurd hpos (Nat.not_lt.mpr hle)
  | cons c s ih =>
    cases skip with
    | succ skip => exact ih skip _
    | zero =>
      rw [Regex.replaceFrom, Pattern.replaceFrom, h]
      cases hsome : find (c :: s) with
      | none => exact congrArg (c :: ·) (ih 0 _)
      | some n =>
        obtain ⟨hpos, hle⟩ := hfind _ _ hsome
        obtain ⟨n, rfl⟩ := Nat.exists_eq_add_one_of_ne_zero (Nat.ne_of_gt hpos)
        have hlength : ((c :: s).take (n + 1)).length = n + 1 := List.length_take_of_le hle
        simp only [Option.map_some, hlength, hf]
        exact congrArg (_ ++ ·) (ih n _)

/-- A replacement text without a dollar sign is put in as it is. -/
theorem substitute_eq (m : Regex.Match UInt16) {url : JSText} (h : unit '$' ∉ url) :
    substitute m url = url := by
  induction url with
  | nil => rfl
  | cons c url ih =>
    obtain ⟨hc, hurl⟩ := List.ne_and_not_mem_of_not_mem_cons h
    cases url with
    | nil => rfl
    | cons d url =>
      rw [substitute, if_neg (Ne.symm hc), ih hurl]

theorem replace_plain {pattern url : JSText} (hplain : Plain pattern) (hne : pattern ≠ [])
    (hurl : unit '$' ∉ url) (content : JSText) :
    R.replace pattern url content =
      some (Pattern.replaceAll (R.plainAt pattern) (fun _ => url) content) := by
  have hreplace : Regex.replaceFrom (R.plain pattern) (fun m => substitute m url) 0 [] content =
      Pattern.replaceFrom (R.plainAt pattern) (fun _ => url) 0 content := by
    refine replaceFrom_of_matchAt (matchAt_plain pattern) (fun s n h => ?_) (fun m => ?_) 0 [] content
    · obtain ⟨rfl, hle⟩ := plainAt_bounds h
      exact ⟨List.length_pos_iff.mpr hne, hle⟩
    · exact substitute_eq m hurl
  rw [RegExps.replace, if_pos hplain]
  exact congrArg some hreplace

end Patterns

/-! ## References in a document where some are replaced -/

section References

variable {R} {ids : List JSText} {url : JSText → JSText}

theorem canonicalize_scheme : (js "cid:").map R.canonicalize = [67, 73, 68, 58] := by
  change [R.canonicalize 99, R.canonicalize 105, R.canonicalize 100, R.canonicalize 58] = _
  rw [R.ascii 99 (by decide), R.ascii 105 (by decide), R.ascii 100 (by decide),
    R.ascii 58 (by decide)]
  rfl

/-- The letters of `cid:` are those of no end. -/
theorem canonicalize_ends {c : UInt16} (hc : ends c = true) :
    R.canonicalize c ∉ ([67, 73, 68, 58] : JSText) := by
  by_cases hascii : c < 128
  · have hall : ∀ n < 128, ends (UInt16.ofNat n) = true →
        (if 97 ≤ UInt16.ofNat n ∧ UInt16.ofNat n ≤ 122 then UInt16.ofNat n - 32 else UInt16.ofNat n) ∉
          ([67, 73, 68, 58] : JSText) := by decide
    have hend := hall c.toNat hascii
    rw [UInt16.ofNat_toNat] at hend
    rw [R.ascii c hascii]
    exact hend hc
  · have hbeyond := R.beyond c (UInt16.not_lt.mp hascii)
    intro hmem
    have hsmall : ∀ d ∈ ([67, 73, 68, 58] : JSText), ¬128 ≤ d := by simp
    exact hsmall _ hmem hbeyond

theorem canonicalize_colon {c : UInt16} (h : R.canonicalize c = 58) : c = unit ':' := by
  by_cases hascii : c < 128
  · have hall : ∀ n < 128,
        (if 97 ≤ UInt16.ofNat n ∧ UInt16.ofNat n ≤ 122 then UInt16.ofNat n - 32 else UInt16.ofNat n) = 58 →
          UInt16.ofNat n = unit ':' := by decide
    have hcolon := hall c.toNat hascii
    rw [UInt16.ofNat_toNat] at hcolon
    rw [R.ascii c hascii] at h
    exact hcolon h
  · have hbeyond := R.beyond c (UInt16.not_lt.mp hascii)
    rw [h] at hbeyond
    exact absurd hbeyond (by decide)

theorem reference_eq (s : JSText) : R.reference s =
    if (s.take 4).map R.canonicalize = [67, 73, 68, 58] then
      some (4 + ((s.drop 4).takeWhile fun c => !ends c).length) else none := by
  rw [RegExps.reference, canonicalize_scheme]

/-- A reference is `cid:`, and what comes up to an end. -/
theorem reference_some {s : JSText} {n : Nat} (h : R.reference s = some n) :
    (s.take 4).map R.canonicalize = [67, 73, 68, 58] ∧ 4 ≤ n ∧ n ≤ s.length ∧
      (∀ c ∈ idOf (s.take n), ends c = false) ∧ ∀ c ∈ (s.drop n).head?, ends c = true := by
  rw [reference_eq] at h
  split at h
  · rename_i hscheme
    cases h
    have hlength := congrArg List.length hscheme
    rw [List.length_map, List.length_take, List.length_cons, List.length_cons, List.length_cons,
      List.length_singleton] at hlength
    have hrun : ((s.drop 4).takeWhile fun c => !ends c).length ≤ (s.drop 4).length :=
      (List.takeWhile_prefix _).length_le
    rw [List.length_drop] at hrun
    refine ⟨hscheme, Nat.le_add_right _ _, by omega, fun c hc => ?_, fun c hc => ?_⟩
    · rw [idOf, List.drop_take, Nat.add_sub_cancel_left,
        ← List.prefix_iff_eq_take.mp (List.takeWhile_prefix _)] at hc
      have hstop := List.mem_takeWhile_imp hc
      exact Bool.eq_false_iff.mpr fun hend => by simp [hend] at hstop
    · have happ : (s.drop 4).takeWhile (fun c => !ends c) ++ (s.drop 4).dropWhile (fun c => !ends c) =
          s.drop 4 := List.takeWhile_append_dropWhile
      have hsplit : s.drop (4 + ((s.drop 4).takeWhile fun c => !ends c).length) =
          (s.drop 4).dropWhile fun c => !ends c := by
        rw [← List.drop_drop]
        nth_rewrite 2 [← happ]
        exact List.drop_left
      rw [hsplit] at hc
      have hstop := List.head?_dropWhile_not (fun c => !ends c) (s.drop 4)
      rw [Option.mem_def.mp hc] at hstop
      simpa using hstop
  · cases h

/-- A URL that a document with references can hold. -/
def Inert (u : JSText) : Prop := unit ':' ∉ u ∧ u.head? = some (unit '/')

theorem reference_pos (s : JSText) (n : Nat) (h : R.reference s = some n) : 0 < n ∧ n ≤ s.length :=
  ⟨Nat.lt_of_lt_of_le (by decide) (reference_some h).2.1, (reference_some h).2.2.1⟩

theorem rewritten_none {c : UInt16} {s : JSText} (h : R.reference (c :: s) = none) :
    rewritten R ids url (c :: s) = c :: rewritten R ids url s := Pattern.replaceAll_none h

theorem rewritten_some {s : JSText} {n : Nat} (h : R.reference s = some n) :
    rewritten R ids url s = resolved ids url (s.take n) ++ rewritten R ids url (s.drop n) := by
  obtain ⟨hpos, hle⟩ := reference_pos s n h
  obtain ⟨n, rfl⟩ := Nat.exists_eq_add_one_of_ne_zero (Nat.ne_of_gt hpos)
  cases s with
  | nil => cases hle
  | cons c s => exact Pattern.replaceAll_some h

/-- No reference begins with an end. -/
theorem reference_ends {c : UInt16} (hc : ends c = true) (s : JSText) :
    R.reference (c :: s) = none := by
  rw [reference_eq, if_neg]
  intro h
  exact canonicalize_ends (R := R) hc (by rw [(List.cons.inj h).1]; exact List.mem_cons_self)

/-- An end after a reference is still there. -/
theorem head_rewritten {s : JSText} (h : ∀ c ∈ s.head?, ends c = true) :
    ∀ c ∈ (rewritten R ids url s).head?, ends c = true := by
  cases s with
  | nil => exact h
  | cons c s =>
    rw [rewritten_none (reference_ends (h c rfl) s)]
    exact h

/-- Letters that begin no reference and no URL are letters of the document. -/
theorem take_rewritten (hurl : ∀ cid ∈ ids, Inert (url cid)) {w : JSText}
    (hw : ∀ x ∈ w, x ≠ 67 ∧ x ≠ 47) {s : JSText}
    (h : ((rewritten R ids url s).take w.length).map R.canonicalize = w) :
    (s.take w.length).map R.canonicalize = w := by
  induction w generalizing s with
  | nil => rfl
  | cons x w ih =>
    obtain ⟨⟨hc, hslash⟩, hw⟩ := List.forall_mem_cons.mp hw
    cases s with
    | nil => cases h
    | cons d s =>
      cases href : R.reference (d :: s) with
      | none =>
        rw [rewritten_none href] at h
        obtain ⟨hd, h⟩ := List.cons.inj h
        rw [List.length_cons, List.take_succ_cons, List.map_cons, hd, ih hw h]
      | some n =>
        obtain ⟨hscheme, hn, -⟩ := reference_some href
        obtain ⟨n, rfl⟩ := Nat.exists_eq_add_one_of_ne_zero (Nat.ne_of_gt (Nat.lt_of_lt_of_le (by decide) hn))
        rw [rewritten_some href, resolved] at h
        split at h
        · rename_i hmem
          obtain ⟨u, hu⟩ := List.head?_eq_some_iff.mp (hurl _ hmem).2
          rw [hu] at h
          have hx : R.canonicalize (unit '/') = x := (List.cons.inj h).1
          have hcanon : R.canonicalize (unit '/') = 47 := R.ascii 47 (by decide)
          exact absurd (hx.symm.trans hcanon) hslash
        · have hx : R.canonicalize d = x := (List.cons.inj h).1
          have hcanon : R.canonicalize d = 67 := (List.cons.inj hscheme).1
          exact absurd (hx.symm.trans hcanon) hc

/-- No reference comes about where there was none. -/
theorem reference_rewritten_none (hurl : ∀ cid ∈ ids, Inert (url cid)) {c : UInt16} {s : JSText}
    (h : R.reference (c :: s) = none) : R.reference (c :: rewritten R ids url s) = none := by
  rw [reference_eq] at h ⊢
  rw [if_neg]
  intro hscheme
  obtain ⟨hc, hrest⟩ := List.cons.inj hscheme
  have htake := take_rewritten hurl (w := [73, 68, 58]) (by simp) hrest
  rw [if_pos] at h
  · cases h
  · rw [List.take_succ_cons, List.map_cons, hc]
    exact congrArg (67 :: ·) htake

/-- A reference is one whatever comes after its end. -/
theorem reference_append {s t : JSText} {n : Nat} (h : R.reference s = some n)
    (ht : ∀ c ∈ t.head?, ends c = true) : R.reference (s.take n ++ t) = some n := by
  obtain ⟨hscheme, hn, hle, hrun, -⟩ := reference_some h
  have hlength : (s.take n).length = n := List.length_take_of_le hle
  have hfour : (s.take n ++ t).take 4 = s.take 4 := by
    rw [List.take_append_of_le_length (by omega), List.take_take, Nat.min_eq_left hn]
  have hdrop : (s.take n ++ t).drop 4 = idOf (s.take n) ++ t :=
    List.drop_append_of_le_length (by omega)
  have hstop : t.takeWhile (fun c => !ends c) = [] := by
    cases t with
    | nil => rfl
    | cons c t => simp [ht c rfl]
  have hall : ∀ c ∈ idOf (s.take n), (!ends c) = true := fun c hc => by simp [hrun c hc]
  rw [reference_eq, hfour, if_pos hscheme, hdrop, List.takeWhile_append_of_pos hall, hstop,
    List.append_nil, idOf, List.length_drop, hlength]
  congr 1
  omega

/-- There is no reference in a URL. -/
theorem rewritten_inert {u t : JSText} (hu : unit ':' ∉ u) (ht : ∀ c ∈ t.head?, ends c = true) :
    rewritten R ids url (u ++ t) = u ++ rewritten R ids url t := by
  induction u with
  | nil => rfl
  | cons c u ih =>
    obtain ⟨-, hu'⟩ := List.ne_and_not_mem_of_not_mem_cons hu
    have hnone : R.reference (c :: (u ++ t)) = none := by
      rw [reference_eq, if_neg]
      intro hscheme
      -- an end, or the colon, would be a letter of the scheme
      have hhead : ∀ x ∈ ([67, 73, 68, 58] : JSText), t.head?.map R.canonicalize ≠ some x := by
        intro x hx hhead
        obtain ⟨d, hd, hcanon⟩ := Option.map_eq_some_iff.mp hhead
        exact canonicalize_ends (R := R) (ht d hd) (hcanon ▸ hx)
      rcases u with _ | ⟨x, _ | ⟨y, _ | ⟨z, u⟩⟩⟩
      · cases t with
        | nil => simp at hscheme
        | cons d t => exact hhead 73 (by simp) (congrArg (·[1]?) hscheme)
      · cases t with
        | nil => simp at hscheme
        | cons d t => exact hhead 68 (by simp) (congrArg (·[2]?) hscheme)
      · cases t with
        | nil => simp at hscheme
        | cons d t => exact hhead 58 (by simp) (congrArg (·[3]?) hscheme)
      · have hz : R.canonicalize z = 58 := Option.some.inj (congrArg (·[3]?) hscheme)
        exact hu' (by simp [canonicalize_colon hz])
    rw [List.cons_append, rewritten_none hnone, ih hu']
    rfl

/-- A second replacement goes over the document as the first has read it. -/
theorem rewritten_rewritten (ids' : List JSText) (hurl : ∀ cid ∈ ids, Inert (url cid)) (html : JSText) :
    rewritten R ids' url (rewritten R ids url html) = rewritten R (ids ++ ids') url html := by
  induction hn : html.length using Nat.strong_induction_on generalizing html with
  | _ n ih =>
    subst hn
    cases html with
    | nil => rfl
    | cons c s =>
      cases href : R.reference (c :: s) with
      | none =>
        rw [rewritten_none href, rewritten_none href,
          rewritten_none (reference_rewritten_none hurl href), ih s.length (Nat.lt_succ_self _) s rfl]
      | some n =>
        obtain ⟨-, hn, hle, -, hend⟩ := reference_some href
        have hshort : ((c :: s).drop n).length < (c :: s).length := by
          rw [List.length_drop]
          omega
        have hnext : ∀ d ∈ (rewritten R ids url ((c :: s).drop n)).head?, ends d = true :=
          head_rewritten hend
        rw [rewritten_some href, rewritten_some href, ← ih _ hshort _ rfl]
        by_cases hmem : idOf ((c :: s).take n) ∈ ids
        · rw [resolved, if_pos hmem, resolved, if_pos (List.mem_append_left _ hmem),
            rewritten_inert (hurl _ hmem).1 hnext]
        · have hlength : ((c :: s).take n).length = n := List.length_take_of_le hle
          have hkept : resolved ids url ((c :: s).take n) = (c :: s).take n := if_neg hmem
          have hboth : resolved (ids ++ ids') url ((c :: s).take n) =
              resolved ids' url ((c :: s).take n) := by
            rw [resolved, resolved]
            simp [hmem]
          rw [hkept, hboth, rewritten_some (reference_append href hnext), List.take_left' hlength,
            List.drop_left' hlength]

end References

/-! ## The URLs of the frame -/

section Urls

theorem mem_percent {n : Nat} {c : UInt16} (h : c ∈ percent n) :
    isUnreserved c = true ∨ c = unit '%' := by
  obtain ⟨b, -, hc⟩ := List.mem_flatMap.mp h
  have hall : ∀ k < 16, isUnreserved (hexUnit k) = true := by decide
  simp only [List.mem_cons, List.not_mem_nil, or_false] at hc
  obtain rfl | rfl | rfl := hc
  · exact .inr rfl
  · exact .inl (hall _ (Nat.mod_lt _ (by decide)))
  · exact .inl (hall _ (Nat.mod_lt _ (by decide)))

/-- What is encoded is letters that need no encoding, and percent signs. -/
theorem mem_encodeURIComponent {s e : JSText} (h : encodeURIComponent s = some e) :
    ∀ c ∈ e, isUnreserved c = true ∨ c = unit '%' := by
  -- a piece in front of what is encoded after it
  have hpiece : ∀ {t e p : JSText} (_ : ∀ e, encodeURIComponent t = some e → ∀ c ∈ e,
      isUnreserved c = true ∨ c = unit '%') (_ : ∀ c ∈ p, isUnreserved c = true ∨ c = unit '%'),
      (encodeURIComponent t).map (p ++ ·) = some e → ∀ c ∈ e, isUnreserved c = true ∨ c = unit '%' := by
    intro t e p ih hp h c hc
    obtain ⟨e', he', rfl⟩ := Option.map_eq_some_iff.mp h
    exact (List.mem_append.mp hc).elim (hp c) (ih e' he' c)
  induction s using encodeURIComponent.induct generalizing e with
  | case1 =>
    cases h
    exact fun c hc => absurd hc List.not_mem_nil
  | case2 d s hd ih =>
    rw [encodeURIComponent.eq_def] at h
    dsimp only at h
    rw [if_pos hd] at h
    exact hpiece (fun e => ih) (p := [d]) (by simp [hd]) h
  | case3 d s hd hunit ih =>
    rw [encodeURIComponent.eq_def] at h
    dsimp only at h
    rw [if_neg hd, if_pos hunit] at h
    exact hpiece (fun e => ih) (fun c => mem_percent) h
  | case4 d hd hunit =>
    rw [encodeURIComponent, if_neg hd, if_neg hunit] at h
    cases h
  | case5 d hd hunit d' s hpair ih =>
    rw [encodeURIComponent, if_neg hd, if_neg hunit, if_pos hpair] at h
    exact hpiece (fun e => ih) (fun c => mem_percent) h
  | case6 d hd hunit d' s hpair =>
    rw [encodeURIComponent, if_neg hd, if_neg hunit, if_neg hpair] at h
    cases h

/-- The URLs hold no colon and no dollar sign, and begin with a slash. -/
theorem inlineUrl_plain {uid : Nat} {folder target u : JSText}
    (h : inlineUrl uid folder target = some u) : Inert u ∧ unit '$' ∉ u := by
  rw [inlineUrl, getAttachmentUrl] at h
  obtain ⟨accountQS, hqs, h⟩ := Option.bind_eq_some_iff.mp h
  obtain rfl := Option.some.inj hqs
  obtain ⟨target', htarget, h⟩ := Option.bind_eq_some_iff.mp h
  obtain ⟨folder', hfolder, h⟩ := Option.bind_eq_some_iff.mp h
  obtain rfl := Option.some.inj h
  have hencoded : ∀ c, isUnreserved c = true ∨ c = unit '%' → c ≠ unit ':' ∧ c ≠ unit '$' := by
    rintro c hc
    refine ⟨?_, ?_⟩ <;>
    · rintro rfl
      revert hc
      decide
  have hnumber : ∀ c ∈ number uid, c ≠ unit ':' ∧ c ≠ unit '$' := by
    intro c hc
    obtain ⟨b, hb, rfl⟩ := List.mem_map.mp hc
    have hdigit := isDecimalDigit_decimal hb
    rw [isDecimalDigit, Bool.and_eq_true, decide_eq_true_iff, decide_eq_true_iff,
      UInt8.le_iff_toNat_le, UInt8.le_iff_toNat_le] at hdigit
    have hall : ∀ n < 58, 48 ≤ n → UInt16.ofNat n ≠ unit ':' ∧ UInt16.ofNat n ≠ unit '$' := by decide
    exact hall _ (Nat.lt_succ_of_le hdigit.2) hdigit.1
  have hfixed : ∀ c ∈ js "/api/mail/messages/" ++ js "/attachments/" ++ js "?folder=",
      c ≠ unit ':' ∧ c ≠ unit '$' := by
    have hall : (js "/api/mail/messages/" ++ js "/attachments/" ++ js "?folder=").all
        (fun c => c != unit ':' && c != unit '$') = true := by decide
    intro c hc
    have hc' := List.all_eq_true.mp hall c hc
    rw [Bool.and_eq_true, bne_iff_ne, bne_iff_ne] at hc'
    exact hc'
  have hall : ∀ c ∈ js "/api/mail/messages/" ++ number uid ++ js "/attachments/" ++ target' ++
      js "?folder=" ++ folder' ++ [], c ≠ unit ':' ∧ c ≠ unit '$' := by
    intro c hc
    simp only [List.mem_append, List.not_mem_nil, or_false] at hc hfixed
    obtain ((((hc | hc) | hc) | hc) | hc) | hc := hc
    · exact hfixed c (.inl (.inl hc))
    · exact hnumber c hc
    · exact hfixed c (.inl (.inr hc))
    · exact hencoded c (mem_encodeURIComponent htarget c hc)
    · exact hfixed c (.inr hc)
    · exact hencoded c (mem_encodeURIComponent hfolder c hc)
  exact ⟨⟨fun h => (hall _ h).1 rfl, rfl⟩, fun h => (hall _ h).2 rfl⟩

/-- A URL with an account goes on where the one without ends. -/
theorem getAttachmentUrl_account {uid : Nat} {attId folder account u : JSText}
    (h : getAttachmentUrl uid attId folder account = some u) :
    ∃ v qs, inlineUrl uid folder attId = some v ∧ u = v ++ qs ∧
      (account ≠ [] → qs.head? = some (unit '&')) := by
  rw [getAttachmentUrl] at h
  obtain ⟨qs, hqs, h⟩ := Option.bind_eq_some_iff.mp h
  obtain ⟨target', htarget, h⟩ := Option.bind_eq_some_iff.mp h
  obtain ⟨folder', hfolder, h⟩ := Option.bind_eq_some_iff.mp h
  refine ⟨_, qs, ?_, (Option.some.inj h).symm, fun hne => ?_⟩
  · rw [inlineUrl, getAttachmentUrl, htarget, hfolder]
    exact congrArg some (List.append_nil _)
  · rw [accountQuery, if_neg hne] at hqs
    obtain ⟨account', -, rfl⟩ := Option.map_eq_some_iff.mp hqs
    rfl

end Urls

/-! ## The loop -/

section Loop

variable {R} {uid : Nat} {folder : JSText} {attachments : List AttachmentInfo}

/-- A reference to an id is matched by its pattern. -/
theorem plainAt_of_reference {s : JSText} {n : Nat} (h : R.reference s = some n) :
    R.plainAt (js "cid:" ++ idOf (s.take n)) s ≠ none := by
  obtain ⟨hscheme, hn, hle, -⟩ := reference_some h
  have hself : ∀ (target t : JSText), R.plainAt target (target ++ t) = some target.length := by
    intro target t
    induction target with
    | nil => simp [RegExps.plainAt]
    | cons c target ih =>
      have hfits : R.fits c c = true := by
        rw [RegExps.fits]
        split
        · rename_i hdot
          rw [hdot]
          rfl
        · simp
      rw [List.cons_append, plainAt_cons, hfits, ih]
      rfl
  have hletter : ∀ c d, R.canonicalize d = R.canonicalize c → c ≠ unit '.' → R.fits c d = true := by
    intro c d hcanon hc
    rw [RegExps.fits, if_neg hc, hcanon]
    exact beq_self_eq_true _
  rw [← canonicalize_scheme (R := R)] at hscheme
  rcases s with _ | ⟨c, _ | ⟨i, _ | ⟨d, _ | ⟨x, s⟩⟩⟩⟩
  · cases hscheme
  · simp [js] at hscheme
  · simp [js] at hscheme
  · simp [js] at hscheme
  · obtain ⟨n, rfl⟩ := Nat.exists_eq_add_of_le' hn
    have hsplit : s = s.take n ++ s.drop n := (List.take_append_drop n s).symm
    have hc : R.fits 99 c = true := hletter _ _ (List.cons.inj hscheme).1 (by decide)
    have hi : R.fits 105 i = true := hletter _ _ (Option.some.inj (congrArg (·[1]?) hscheme)) (by decide)
    have hd : R.fits 100 d = true := hletter _ _ (Option.some.inj (congrArg (·[2]?) hscheme)) (by decide)
    have hx : R.fits 58 x = true := hletter _ _ (Option.some.inj (congrArg (·[3]?) hscheme)) (by decide)
    have htarget : js "cid:" ++ idOf ((c :: i :: d :: x :: s).take (n + 4)) =
        99 :: 105 :: 100 :: 58 :: s.take n := rfl
    rw [htarget, plainAt_cons, hc, if_pos rfl, plainAt_cons, hi, if_pos rfl, plainAt_cons, hd, if_pos rfl,
      plainAt_cons, hx, if_pos rfl]
    nth_rewrite 2 [hsplit]
    rw [hself]
    nofun

/-- A match of a harmless attachment is a reference to it. -/
theorem mem_places_harmless {target content : JSText}
    (h : Harmless R uid folder attachments target content) {p : Nat × JSText}
    (hp : p ∈ Pattern.places (R.plainAt (js "cid:" ++ target)) content) :
    target ∈ contentIds attachments ∧ p ∈ Pattern.places R.reference content ∧ idOf p.2 = target := by
  obtain ⟨htarget, q, hq, hqp, hid⟩ := h.whole p hp
  have hpos : ∀ t n, R.plainAt (js "cid:" ++ target) t = some n → 0 < n := by
    intro t n hn
    rw [(plainAt_bounds hn).1]
    simp [js]
  obtain ⟨a, b, n, hsplit, hpa, hb, hptext⟩ := Pattern.mem_placesFrom hpos p hp
  obtain ⟨a', b', n', hsplit', hqa, hb', hqtext⟩ :=
    Pattern.mem_placesFrom (fun t n h => (reference_pos t n h).1) q hq
  obtain ⟨-, hn', hle', -⟩ := reference_some hb'
  obtain ⟨rfl, rfl⟩ : a = a' ∧ b = b' := by
    refine List.append_inj (hsplit.symm.trans hsplit') ?_
    omega
  have hlength : n' = n := by
    have hidlength := congrArg List.length hid
    rw [hqtext, idOf, List.length_drop, List.length_take_of_le hle'] at hidlength
    rw [(plainAt_bounds hb).1, List.length_append, ← hidlength]
    have hfour : (js "cid:").length = 4 := rfl
    omega
  have heq : p = q := Prod.ext hqp.symm (by rw [hptext, hqtext, hlength])
  exact ⟨htarget, heq ▸ hq, heq ▸ hid⟩

/-- The turn of a harmless attachment replaces the references to it. -/
theorem replace_harmless {target content u : JSText} (hu : inlineUrl uid folder target = some u)
    (h : Harmless R uid folder attachments target content) :
    R.replace (js "cid:" ++ target) u content =
      some (rewritten R ([target].filter fun target => target ∈ contentIds attachments)
        (frameUrl uid folder) content) := by
  have hplain : Plain (js "cid:" ++ target) := by
    have hscheme : ∀ c ∈ js "cid:", isSyntax c = false := by simp [js, isSyntax]
    exact fun c hc => (List.mem_append.mp hc).elim (hscheme c) (h.plain c)
  rw [replace_plain hplain (by simp [js]) (inlineUrl_plain hu).2]
  refine congrArg some (Pattern.replaceAll_of_places (fun t n hn => ?_) reference_pos (fun t n hn hnone => ?_)
    content 0 fun p hp => ?_)
  · obtain ⟨rfl, hle⟩ := plainAt_bounds hn
    exact ⟨by simp [js], hle⟩
  · rw [resolved, if_neg]
    intro hmem
    have hid := List.mem_singleton.mp (List.mem_of_mem_filter hmem)
    rw [← hid] at hnone
    exact plainAt_of_reference hn hnone
  · obtain ⟨htarget, hmem, hid⟩ := mem_places_harmless h hp
    refine ⟨hmem, ?_⟩
    rw [resolved, if_pos (by simp [hid, htarget]), hid, frameUrl, hu]
    rfl

theorem rewritten_congr {ids ids' : List JSText} (h : ∀ cid, cid ∈ ids ↔ cid ∈ ids')
    (url : JSText → JSText) (html : JSText) : rewritten R ids url html = rewritten R ids' url html := by
  have hresolved : resolved ids url = resolved ids' url := by
    funext m
    rw [resolved, resolved]
    exact if_congr (h _) rfl rfl
  rw [rewritten, rewritten, hresolved]

theorem doneIds_append (before : List AttachmentInfo) (att : AttachmentInfo) :
    doneIds attachments (before ++ [att]) =
      doneIds attachments before ++ [att.targetId].filter fun target => target ∈ contentIds attachments := by
  rw [doneIds, List.map_append, List.filter_append]
  rfl

theorem rewritten_nil (url : JSText → JSText) (html : JSText) : rewritten R [] url html = html := by
  induction hn : html.length using Nat.strong_induction_on generalizing html with
  | _ n ih =>
    subst hn
    cases html with
    | nil => rfl
    | cons c s =>
      cases href : R.reference (c :: s) with
      | none => rw [rewritten_none href, ih s.length (Nat.lt_succ_self _) s rfl]
      | some n =>
        obtain ⟨hpos, hle⟩ := reference_pos _ n href
        have hkept : resolved [] url ((c :: s).take n) = (c :: s).take n := if_neg List.not_mem_nil
        rw [rewritten_some href, hkept, ih ((c :: s).drop n).length
          (by rw [List.length_drop]; omega) _ rfl, List.take_append_drop]

/-- The loop puts the references right, attachment by attachment. -/
theorem rewriteCid_clear {html : JSText}
    (hturn : ∀ before att after, attachments = before ++ att :: after → att.targetId ≠ [] →
      Harmless R uid folder attachments att.targetId
        (rewritten R (doneIds attachments before) (frameUrl uid folder) html))
    (after before : List AttachmentInfo) (hsplit : attachments = before ++ after)
    (hinert : ∀ cid ∈ doneIds attachments before, Inert (frameUrl uid folder cid)) :
    rewriteCid R uid folder after
        (rewritten R (doneIds attachments before) (frameUrl uid folder) html) =
      some (rewritten R (doneIds attachments attachments) (frameUrl uid folder) html) := by
  induction after generalizing before with
  | nil =>
    rw [List.append_nil] at hsplit
    rw [rewriteCid, ← hsplit]
  | cons att after ih =>
    have hsplit' : attachments = before ++ [att] ++ after := by
      rw [hsplit, List.append_assoc]
      rfl
    rw [rewriteCid]
    split
    · rename_i hnil
      have hnone : [att.targetId].filter (fun target => target ∈ contentIds attachments) = [] := by
        simp [hnil, contentIds]
      have hdone : doneIds attachments (before ++ [att]) = doneIds attachments before := by
        rw [doneIds_append, hnone, List.append_nil]
      have hnext := ih (before ++ [att]) hsplit' (by rwa [hdone])
      rwa [hdone] at hnext
    · rename_i htarget
      have hharmless := hturn before att after hsplit htarget
      obtain ⟨u, hu⟩ := Option.isSome_iff_exists.mp hharmless.url
      have hfront : ∀ cid ∈ doneIds attachments (before ++ [att]), Inert (frameUrl uid folder cid) := by
        intro cid hcid
        rw [doneIds_append] at hcid
        obtain hcid | hcid := List.mem_append.mp hcid
        · exact hinert cid hcid
        · rw [List.mem_singleton.mp (List.mem_of_mem_filter hcid), frameUrl, hu]
          exact (inlineUrl_plain hu).1
      rw [hu, Option.bind_eq_bind, Option.bind_some, replace_harmless hu hharmless,
        Option.bind_some, rewritten_rewritten _ hinert, ← doneIds_append]
      exact ih (before ++ [att]) hsplit' hfront

end Loop

/-- Patterns in ASCII, without syntax characters. -/
def asciiRegExps : RegExps where
  canonicalize c := if 97 ≤ c ∧ c ≤ 122 then c - 32 else c
  ascii _ _ := rfl
  beyond c hc := by
    rw [if_neg]
    · exact hc
    · intro h
      exact absurd (UInt16.le_trans hc h.2) (by decide)
  syntactic _ := none

/-- An account of a session. -/
def accountNamed (id : String) (isDefault : Bool) : Backend.Account where
  id := id
  userEmail := "a@x"
  label := ""
  email := "a@x"
  imapHost := ""
  imapPort := 993
  imapUseTLS := true
  imapAllowInsecureTLS := false
  smtpHost := ""
  smtpPort := 465
  smtpUseTLS := true
  smtpAllowInsecureTLS := false
  username := ""
  encIMAPPassword := .plain ""
  encSMTPPassword := .plain ""
  isDefault := isDefault
  sortOrder := 0
  updatedAt := 0

/-- A session with two accounts. -/
def twoAccounts : Backend.Session where
  email := "a@x"
  username := ""
  accounts := [accountNamed "one" true, accountNamed "two" false]

/-- Two images. -/
def twoImages : List AttachmentInfo := [⟨js "1", js "a.b"⟩, ⟨js "2", js "c"⟩]

/-- A reference to each, between quotes. -/
def twoReferences : JSText := js "<img src='CID:a.b'><img src='cid:c'>"

/-- The pattern matches in one place, and a reference to the attachment stands there. -/
theorem harmless_of_place {R : RegExps} {uid : Nat} {folder target content : JSText}
    {attachments : List AttachmentInfo} {p q : Nat × JSText} (hplain : Plain target)
    (hurl : (inlineUrl uid folder target).isSome)
    (hplace : Pattern.places (R.plainAt (js "cid:" ++ target)) content = [p])
    (hcid : target ∈ contentIds attachments) (hq : q ∈ Pattern.places R.reference content)
    (hsame : q.1 = p.1) (hid : idOf q.2 = target) : Harmless R uid folder attachments target content := by
  refine ⟨hplain, hurl, fun p' hp => ?_⟩
  rw [hplace, List.mem_singleton] at hp
  exact ⟨hcid, q, hq, hp ▸ hsame, hid⟩

theorem harmless_first : Harmless asciiRegExps 1 (js "INBOX") twoImages (js "a.b")
    (rewritten asciiRegExps (doneIds twoImages []) (frameUrl 1 (js "INBOX")) twoReferences) :=
  @harmless_of_place _ _ _ _ _ _ (10, js "CID:a.b") (10, js "CID:a.b") (by decide) rfl
    (by decide +kernel) (by decide) (by decide +kernel) rfl rfl

/-- The first reference has been put right. -/
theorem harmless_second : Harmless asciiRegExps 1 (js "INBOX") twoImages (js "c")
    (rewritten asciiRegExps (doneIds twoImages [⟨js "1", js "a.b"⟩]) (frameUrl 1 (js "INBOX"))
      twoReferences) :=
  @harmless_of_place _ _ _ _ _ _ (71, js "cid:c") (71, js "cid:c") (by decide) rfl
    (by decide +kernel) (by decide) (by decide +kernel) rfl rfl

end E2Mail.Frontend.CidImages
