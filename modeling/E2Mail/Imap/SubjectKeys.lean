import E2Mail.Imap.ThreadGroups
import E2Mail.Lib.Rounds
import Mathlib.Data.List.TakeWhile

/-!
# Subjects under marks

A key is a subject without the marks of replies and the tags of lists in front of it. They are
taken off in rounds, and a round takes a tag and then a mark. After ten rounds the rest stays.

* `Mark` — what the patterns make of a text that they match as a whole;
* `stripSubject_mark`, `stripSubject_tag` — one round;
* `strips` — the rounds; `merges` — a subject under marks comes to what the subject itself comes
  to;
* `subjectKey_marks_iff` — when the key is that of the subject without the marks.
-/

namespace E2Mail.Imap

open Lib Text

/-! ## Patterns -/

section Patterns

variable {p s t r : List Char} {w : List Char}

theorem isSpace_of_isRegexpSpace {c : Char} (h : isRegexpSpace c = true) : isSpace c = true := by
  have hc : c = ' ' ∨ c = '\t' ∨ c = '\n' ∨ c = '\r' ∨ c = '\x0c' := by
    simpa [isRegexpSpace, or_assoc] using h
  rcases hc with rfl | rfl | rfl | rfl | rfl <;> decide

theorem takeWhile_append_dropWhile_spaces (s : List Char) : ∃ lead,
    s = lead ++ s.dropWhile isRegexpSpace ∧ ∀ c ∈ lead, isRegexpSpace c = true :=
  ⟨s.takeWhile isRegexpSpace, (List.takeWhile_append_dropWhile).symm, fun _ => List.mem_takeWhile_imp⟩

/-- A letter as the words of the patterns have them. -/
def isMarkLetter (c : Char) : Bool :=
  !isSpace c && !isRegexpSpace c && c != '[' && c != '(' && c != ':' && c != '：'

theorem markLetter_iff {c : Char} : isMarkLetter c = true ↔ isSpace c = false ∧
    isRegexpSpace c = false ∧ c ≠ '[' ∧ c ≠ '(' ∧ c ≠ ':' ∧ c ≠ '：' := by
  simp only [isMarkLetter, Bool.and_eq_true, Bool.not_eq_true', bne_iff_ne, and_assoc]

theorem markLetter_of_sameLetter (hw : w ∈ replyWords.map String.toList) {a c : Char} (ha : a ∈ w)
    (h : sameLetter a c = true) : isMarkLetter c = true := by
  have hall : ((replyWords.map String.toList).all fun w => w.all isMarkLetter) = true := by
    decide
  rw [sameLetter, Bool.or_eq_true, Bool.and_eq_true, beq_iff_eq, beq_iff_eq, beq_iff_eq] at h
  rcases h with rfl | ⟨-, rfl⟩
  · exact List.all_eq_true.1 (List.all_eq_true.1 hall w hw) _ ha
  · decide

/-- A word takes letters of its own, whatever comes after. -/
theorem word_eq_some (hw : ∀ a ∈ w, ∀ c, sameLetter a c = true → isMarkLetter c = true)
    (h : word w s = some r) : ∃ c, s = c ++ r ∧ c.length = w.length ∧
      (∀ d ∈ c, isMarkLetter d = true) ∧ ∀ u, word w (c ++ u) = some u := by
  induction w generalizing s with
  | nil =>
    obtain rfl : s = r := Option.some.inj h
    exact ⟨[], rfl, rfl, nofun, fun _ => rfl⟩
  | cons a w ih =>
    cases s with
    | nil => cases h
    | cons d s =>
      rw [word] at h
      split at h
      · rename_i hd
        obtain ⟨c, rfl, hlen, hletters, hword⟩ :=
          ih (fun b hb => hw b (List.mem_cons_of_mem a hb)) h
        refine ⟨d :: c, rfl, by rw [List.length_cons, hlen, List.length_cons], ?_, fun u => ?_⟩
        · intro e he
          rcases List.mem_cons.1 he with rfl | he
          · exact hw a List.mem_cons_self _ hd
          · exact hletters e he
        · rw [List.cons_append, word, if_pos hd]
          exact hword u
      · cases h

/-- A word does not go on behind a character that is in no word. -/
theorem word_append {x : Char} (hx : ∀ a ∈ w, sameLetter a x = false) (c u : List Char) :
    word w (c ++ x :: u) = (word w c).map (· ++ x :: u) := by
  induction w generalizing c with
  | nil => rfl
  | cons a w ih =>
    cases c with
    | nil => rw [List.nil_append, word, hx a List.mem_cons_self]; rfl
    | cons d c =>
      rw [List.cons_append, word, word]
      split
      · exact ih (fun b hb => hx b (List.mem_cons_of_mem a hb)) c
      · rfl

/-- Brackets end at the first closing one. -/
theorem bracketed_eq_some (h : bracketed s = some r) : ∃ c, s = '[' :: (c ++ ']' :: r) ∧
    ∀ u, bracketed ('[' :: (c ++ ']' :: u)) = some u := by
  cases s with
  | nil => cases h
  | cons d s =>
    by_cases hd : d = '['
    · subst hd
      rw [bracketed] at h
      split at h
      · rename_i x rest hdrop
        obtain rfl : rest = r := Option.some.inj h
        have hx : x = ']' := by
          have hhead := List.head_dropWhile_not (· != ']') (l := s)
            (by rw [hdrop]; exact List.cons_ne_nil _ _)
          simpa [hdrop] using hhead
        subst hx
        refine ⟨s.takeWhile (· != ']'), ?_, fun u => ?_⟩
        · rw [← hdrop, List.takeWhile_append_dropWhile]
        · have hall : ∀ c ∈ s.takeWhile (· != ']'), (c != ']') = true := fun c hc =>
            List.mem_takeWhile_imp (p := (· != ']')) hc
          rw [bracketed, List.dropWhile_append_of_pos hall]
          rfl
      · cases h
    · rw [bracketed] at h
      · cases h
      · rintro s' heq
        exact hd (List.cons.inj heq).1

theorem numbered_eq_some (h : numbered s = some r) : ∃ c, s = '(' :: (c ++ ')' :: r) ∧
    ∀ u, numbered ('(' :: (c ++ ')' :: u)) = some u := by
  cases s with
  | nil => cases h
  | cons d s =>
    by_cases hd : d = '('
    · subst hd
      rw [numbered] at h
      split at h
      · rename_i x digits rest htake hdrop
        obtain rfl : rest = r := Option.some.inj h
        have hall : ∀ c ∈ x :: digits, c.isDigit = true := fun c hc =>
          List.mem_takeWhile_imp (htake ▸ hc)
        refine ⟨x :: digits, ?_, fun u => ?_⟩
        · rw [← hdrop, ← htake, List.takeWhile_append_dropWhile]
        · rw [numbered, List.takeWhile_append_of_pos hall, List.dropWhile_append_of_pos hall]
          rfl
      · cases h
    · rw [numbered] at h
      · cases h
      · rintro s' heq
        exact hd (List.cons.inj heq).1

theorem bracketed_letter {c : Char} (hc : isMarkLetter c = true) (u : List Char) :
    bracketed (c :: u) = none := by
  rw [bracketed]
  rintro s' heq
  exact (markLetter_iff.1 hc).2.2.1 (List.cons.inj heq).1

theorem numbered_letter {c : Char} (hc : isMarkLetter c = true) (u : List Char) :
    numbered (c :: u) = none := by
  rw [numbered]
  rintro s' heq
  exact (markLetter_iff.1 hc).2.2.2.1 (List.cons.inj heq).1

theorem dropWhile_letter {c : Char} (hc : isMarkLetter c = true) (u : List Char) :
    (c :: u).dropWhile isRegexpSpace = c :: u :=
  List.dropWhile_cons_of_neg (by simp [(markLetter_iff.1 hc).2.1])

/-- What comes after the colon of a mark. -/
def afterColon (s : List Char) : Option (List Char) :=
  match s.dropWhile isRegexpSpace with
  | c :: rest => if c == ':' || c == '：' then some (rest.dropWhile isRegexpSpace) else none
  | [] => none

/-- What comes after the word of a mark. -/
def afterWord (s : List Char) : Option (List Char) :=
  let s := s.dropWhile isRegexpSpace
  afterColon (((bracketed s).or (numbered s)).getD s)

theorem subjectPrefix_eq (s : List Char) : subjectPrefix s =
    replyWords.findSome? fun w => (word w.toList (s.dropWhile isRegexpSpace)).bind afterWord := rfl

/-- A character that can follow the word of a mark. -/
theorem not_markLetter {c : Char} (h : isRegexpSpace c = true ∨ c = '[' ∨ c = '(' ∨ c = ':' ∨ c = '：') :
    isMarkLetter c = false := by
  rcases h with h | rfl | rfl | rfl | rfl
  · rw [isMarkLetter, h]
    simp
  · decide
  · decide
  · decide
  · decide

theorem afterColon_append {g u : List Char} {k : Char} (hg : ∀ c ∈ g, isRegexpSpace c = true)
    (hk : k = ':' ∨ k = '：') : afterColon (g ++ k :: u) = some (u.dropWhile isRegexpSpace) := by
  rw [afterColon, List.dropWhile_append_of_pos hg]
  rcases hk with rfl | rfl <;> rfl

theorem afterColon_eq_some (h : afterColon s = some r) : ∃ g k tail, s = g ++ k :: tail ∧
    (∀ c ∈ g, isRegexpSpace c = true) ∧ (k = ':' ∨ k = '：') ∧ r = tail.dropWhile isRegexpSpace := by
  obtain ⟨g, hs, hg⟩ := takeWhile_append_dropWhile_spaces s
  rw [afterColon] at h
  split at h
  · rename_i k tail hdrop
    split at h
    · rename_i hk
      rw [hdrop] at hs
      exact ⟨g, k, tail, hs, hg, by simpa using hk, (Option.some.inj h).symm⟩
    · cases h
  · cases h

/-- Spaces in front of a character that is none. -/
theorem dropWhile_spaces {g u : List Char} {c : Char} (hg : ∀ c ∈ g, isRegexpSpace c = true)
    (hc : isRegexpSpace c = false) : (g ++ c :: u).dropWhile isRegexpSpace = c :: u := by
  rw [List.dropWhile_append_of_pos hg, List.dropWhile_cons_of_neg (by simp [hc])]

theorem head?_spaces {g v : List Char} {x : Char} (hg : ∀ c ∈ g, isRegexpSpace c = true)
    (hx : isMarkLetter x = false) : ∀ y ∈ (g ++ x :: v).head?, isMarkLetter y = false := by
  intro y hy
  cases g with
  | nil => exact (Option.some.inj hy) ▸ hx
  | cons c g =>
    obtain rfl : c = y := Option.some.inj hy
    exact not_markLetter (.inl (hg c List.mem_cons_self))

/-- The rest of a mark ends with its colon, whatever comes after. -/
theorem afterWord_eq_some (h : afterWord s = some r) : ∃ core k tail, s = core ++ k :: tail ∧
    (∀ x ∈ (core ++ [k]).head?, isMarkLetter x = false) ∧ (k = ':' ∨ k = '：') ∧
    r = tail.dropWhile isRegexpSpace ∧
    ∀ u, afterWord (core ++ k :: u) = some (u.dropWhile isRegexpSpace) := by
  obtain ⟨g, hs, hg⟩ := takeWhile_append_dropWhile_spaces s
  rw [afterWord] at h
  generalize s.dropWhile isRegexpSpace = s₁ at h hs
  subst hs
  cases hb : bracketed s₁ with
  | some m =>
    rw [hb] at h
    obtain ⟨g', k, tail, rfl, hg', hk, hr⟩ := afterColon_eq_some h
    obtain ⟨c, rfl, hbracket⟩ := bracketed_eq_some hb
    refine ⟨g ++ '[' :: (c ++ ']' :: g'), k, tail, by simp, ?_, hk, hr, fun u => ?_⟩
    · rw [List.append_assoc]
      exact head?_spaces hg (by decide)
    · have hsplit : g ++ '[' :: (c ++ ']' :: g') ++ k :: u =
          g ++ '[' :: (c ++ ']' :: (g' ++ k :: u)) := by simp
      rw [afterWord, hsplit, dropWhile_spaces hg (by decide)]
      rw [hbracket]
      exact afterColon_append hg' hk
  | none =>
    rw [hb] at h
    cases hn : numbered s₁ with
    | some m =>
      rw [hn] at h
      obtain ⟨g', k, tail, rfl, hg', hk, hr⟩ := afterColon_eq_some h
      obtain ⟨c, rfl, hnumber⟩ := numbered_eq_some hn
      refine ⟨g ++ '(' :: (c ++ ')' :: g'), k, tail, by simp, ?_, hk, hr, fun u => ?_⟩
      · rw [List.append_assoc]
        exact head?_spaces hg (by decide)
      · have hsplit : g ++ '(' :: (c ++ ')' :: g') ++ k :: u =
            g ++ '(' :: (c ++ ')' :: (g' ++ k :: u)) := by simp
        rw [afterWord, hsplit, dropWhile_spaces hg (by decide)]
        rw [hnumber]
        exact afterColon_append hg' hk
    | none =>
      rw [hn] at h
      obtain ⟨g', k, tail, rfl, hg', hk, hr⟩ := afterColon_eq_some h
      have hspaces : ∀ c ∈ g ++ g', isRegexpSpace c = true := fun c hc =>
        (List.mem_append.1 hc).elim (hg c) (hg' c)
      have hcolon : isRegexpSpace k = false ∧ isMarkLetter k = false ∧
          ∀ u, bracketed (k :: u) = none ∧ numbered (k :: u) = none := by
        rcases hk with rfl | rfl <;> exact ⟨by decide, by decide, fun _ => ⟨rfl, rfl⟩⟩
      refine ⟨g ++ g', k, tail, by simp, head?_spaces hspaces hcolon.2.1, hk, hr, fun u => ?_⟩
      rw [afterWord, dropWhile_spaces hspaces hcolon.1]
      rw [(hcolon.2.2 u).1, (hcolon.2.2 u).2]
      exact afterColon_append (g := []) nofun hk

/-! ## Marks -/

/-- What a pattern makes of a text that it matches as a whole: spaces, then a part with no space at
its ends, and spaces again; and the part is matched whatever comes after. -/
structure Mark (g : List Char → Option (List Char)) (p : List Char) where
  lead : List Char
  body : List Char
  trail : List Char
  eq : p = lead ++ (body ++ trail)
  lead_space : ∀ c ∈ lead, isRegexpSpace c = true
  trail_space : ∀ c ∈ trail, isRegexpSpace c = true
  ne_nil : body ≠ []
  head : ∀ c ∈ body.head?, isSpace c = false
  last : ∀ c ∈ body.getLast?, isSpace c = false
  matched : ∀ u, g (body ++ u) = some (u.dropWhile isRegexpSpace)

theorem spaces_of_dropWhile_eq_nil (h : s.dropWhile isRegexpSpace = []) :
    ∀ c ∈ s, isRegexpSpace c = true := List.dropWhile_eq_nil_iff.1 h

/-- A tag that the pattern matches as a whole. -/
theorem exists_tag (h : bracketTag p = some []) : Nonempty (Mark bracketTag p) := by
  obtain ⟨lead, hp, hlead⟩ := takeWhile_append_dropWhile_spaces p
  rw [bracketTag] at h
  obtain ⟨trail, hb, htrail⟩ := Option.map_eq_some_iff.1 h
  obtain ⟨c, hs, hbracket⟩ := bracketed_eq_some hb
  refine ⟨⟨lead, '[' :: (c ++ [']']), trail, ?_, hlead, spaces_of_dropWhile_eq_nil htrail,
    List.cons_ne_nil _ _, ?_, ?_, fun u => ?_⟩⟩
  · rw [hs] at hp
    rw [hp]
    simp
  · intro d hd
    obtain rfl : '[' = d := Option.some.inj hd
    decide
  · intro d hd
    rw [← List.cons_append, List.getLast?_concat] at hd
    obtain rfl : ']' = d := Option.some.inj hd
    decide
  · have hsplit : '[' :: (c ++ [']']) ++ u = '[' :: (c ++ ']' :: u) := by simp
    rw [bracketTag, hsplit, List.dropWhile_cons_of_neg (by decide), hbracket]
    rfl

theorem findSome?_eq_some_of {α β : Type} {l : List α} {f : α → Option β} {b : β}
    (hall : ∀ a ∈ l, f a = none ∨ f a = some b) (hex : ∃ a ∈ l, f a = some b) :
    l.findSome? f = some b := by
  induction l with
  | nil =>
    obtain ⟨a, ha, -⟩ := hex
    cases ha
  | cons a l ih =>
    rw [List.findSome?_cons]
    rcases hall a List.mem_cons_self with hnone | hsome
    · rw [hnone]
      refine ih (fun a' ha' => hall a' (List.mem_cons_of_mem a ha')) ?_
      obtain ⟨a', ha', hb⟩ := hex
      rcases List.mem_cons.1 ha' with rfl | ha'
      · rw [hnone] at hb
        cases hb
      · exact ⟨a', ha', hb⟩
    · rw [hsome]

/-- Where a letter goes on, no mark is read. -/
theorem afterWord_letter {d : Char} (hd : isMarkLetter d = true) (u : List Char) :
    afterWord (d :: u) = none := by
  have hcolon := (markLetter_iff.1 hd).2.2.2.2
  rw [afterWord, dropWhile_letter hd]
  rw [bracketed_letter hd, numbered_letter hd]
  change afterColon (d :: u) = none
  rw [afterColon, dropWhile_letter hd]
  simp [hcolon.1, hcolon.2]

/-- A mark of a reply that the pattern matches as a whole. -/
theorem exists_mark (h : subjectPrefix p = some []) : Nonempty (Mark subjectPrefix p) := by
  obtain ⟨lead, hp, hlead⟩ := takeWhile_append_dropWhile_spaces p
  rw [subjectPrefix_eq] at h
  obtain ⟨v, hv, hmatch⟩ := List.exists_of_findSome?_eq_some h
  obtain ⟨rest, hword, hafter⟩ := Option.bind_eq_some_iff.1 hmatch
  have hletter : ∀ w ∈ replyWords, ∀ a ∈ w.toList, ∀ c, sameLetter a c = true →
      isMarkLetter c = true := fun w hw a ha c =>
    markLetter_of_sameLetter (List.mem_map_of_mem hw) ha
  obtain ⟨c, hc, hlen, hletters, hwhole⟩ := word_eq_some (hletter v hv) hword
  obtain ⟨core, k, trail, hrest, hhead, hk, htrail, hafter'⟩ := afterWord_eq_some hafter
  have hcne : c ≠ [] := by
    have hwords : ∀ w ∈ replyWords, w.toList ≠ [] := by decide
    intro hnil
    rw [hnil, List.length_nil, eq_comm, List.length_eq_zero_iff] at hlen
    exact hwords v hv hlen
  have hkspace : isSpace k = false := by
    rcases hk with rfl | rfl <;> decide
  -- the first character behind the word is in no word
  obtain ⟨x, y, hxy⟩ : ∃ x y, core ++ [k] = x :: y := List.exists_cons_of_ne_nil (by simp)
  have hx : isMarkLetter x = false := hhead x (by rw [hxy]; rfl)
  have hfirst : ∀ d ∈ c.head?, isMarkLetter d = true := fun d hd =>
    hletters d (List.mem_of_mem_head? hd)
  have hbody : ∀ u, subjectPrefix (c ++ (core ++ [k]) ++ u) = some (u.dropWhile isRegexpSpace) := by
    intro u
    have hsplit : c ++ (core ++ [k]) ++ u = c ++ x :: (y ++ u) := by rw [hxy]; simp
    have hkept : (c ++ x :: (y ++ u)).dropWhile isRegexpSpace = c ++ x :: (y ++ u) := by
      obtain ⟨d, c', rfl⟩ := List.exists_cons_of_ne_nil hcne
      exact dropWhile_letter (hfirst d rfl) _
    have htarget : afterWord (x :: (y ++ u)) = some (u.dropWhile isRegexpSpace) := by
      rw [← List.cons_append, ← hxy, List.append_assoc]
      exact hafter' u
    have hstep : ∀ w ∈ replyWords, word w.toList (c ++ x :: (y ++ u)) =
        (word w.toList c).map (· ++ x :: (y ++ u)) := by
      intro w hw
      refine word_append (fun a ha => ?_) c _
      by_contra hsame
      rw [Bool.not_eq_false] at hsame
      rw [hletter w hw a ha x hsame] at hx
      cases hx
    rw [hsplit, subjectPrefix_eq, hkept]
    refine findSome?_eq_some_of (fun w hw => ?_) ⟨v, hv, ?_⟩
    · rw [hstep w hw]
      cases hwc : word w.toList c with
      | none => exact .inl rfl
      | some r =>
        obtain ⟨c', hc', -, -, -⟩ := word_eq_some (hletter w hw) hwc
        cases r with
        | nil => exact .inr htarget
        | cons d r =>
          have hd := hletters d (hc' ▸ List.mem_append_right c' List.mem_cons_self)
          exact .inl (afterWord_letter hd _)
    · have hvc : word v.toList c = some [] := by
        have hnil := hwhole []
        rwa [List.append_nil] at hnil
      rw [hstep v hv, hvc]
      exact htarget
  refine ⟨⟨lead, c ++ (core ++ [k]), trail, ?_, hlead,
    spaces_of_dropWhile_eq_nil htrail.symm, ?_, ?_, ?_, hbody⟩⟩
  · rw [hc, hrest] at hp
    rw [hp]
    simp
  · exact fun hnil => hcne (List.append_eq_nil_iff.1 hnil).1
  · intro d hd
    rw [List.head?_append_of_ne_nil _ hcne] at hd
    exact (markLetter_iff.1 (hfirst d hd)).1
  · intro d hd
    rw [← List.append_assoc, List.getLast?_concat] at hd
    exact (Option.some.inj hd) ▸ hkspace

/-! ## One round -/

/-- What is cut off at the back makes no difference. -/
theorem trimBy_append_right {q : Char → Bool} {v : List Char} (hv : ∀ c ∈ v, q c = true)
    (s : List Char) : trimBy q (s ++ v) = trimBy q s := by
  have hrev : ∀ c ∈ v.reverse, q c = true := fun c hc => hv c (List.mem_reverse.1 hc)
  rw [trimBy, trimBy, List.dropWhile_append]
  split
  · rename_i hempty
    rw [List.isEmpty_iff.1 hempty, List.dropWhile_eq_nil_iff.2 hv]
  · rw [List.reverse_append, List.dropWhile_append_of_pos hrev]

/-- What follows a mark is trimmed as it is without the mark. -/
theorem Mark.trimBy_append {g : List Char → Option (List Char)} (m : Mark g p) (t : List Char) :
    ∃ u, trimBy isSpace (p ++ t) = m.body ++ u ∧
      trimBy isSpace (u.dropWhile isRegexpSpace) = trimBy isSpace t := by
  have hspace : ∀ {v : List Char}, (∀ c ∈ v, isRegexpSpace c = true) → ∀ c ∈ v, isSpace c = true :=
    fun hv c hc => isSpace_of_isRegexpSpace (hv c hc)
  refine ⟨((m.trail ++ t).reverse.dropWhile isSpace).reverse, ?_, ?_⟩
  · have hsplit : p ++ t = m.lead ++ (m.body ++ (m.trail ++ t)) := by
      conv => lhs; rw [m.eq]
      simp
    rw [hsplit, trimBy_append_left (hspace m.lead_space),
      Text.trimBy_append m.ne_nil m.head m.last]
  · generalize hu : ((m.trail ++ t).reverse.dropWhile isSpace).reverse = u
    -- the spaces in front and behind are trimmed anyway
    obtain ⟨lead, hlead, hall⟩ := takeWhile_append_dropWhile_spaces u
    have hfront : trimBy isSpace (u.dropWhile isRegexpSpace) = trimBy isSpace u := by
      conv => rhs; rw [hlead]
      exact (trimBy_append_left (hspace hall) _).symm
    have hback : trimBy isSpace u = trimBy isSpace (m.trail ++ t) := by
      have hsplit : m.trail ++ t = u ++ ((m.trail ++ t).reverse.takeWhile isSpace).reverse := by
        rw [← hu, ← List.reverse_append, List.takeWhile_append_dropWhile, List.reverse_reverse]
      conv => rhs; rw [hsplit]
      refine (trimBy_append_right (fun c hc => ?_) u).symm
      exact List.mem_takeWhile_imp (List.mem_reverse.1 hc)
    rw [hfront, hback, trimBy_append_left (hspace m.trail_space)]

/-- Takes a mark off. -/
def stripMark (s : List Char) : List Char := ((subjectPrefix s).map (trimBy isSpace)).getD s

/-- Takes a tag off. -/
def stripTag (s : List Char) : List Char := ((bracketTag s).map (trimBy isSpace)).getD s

theorem stripSubject_eq (s : List Char) : stripSubject s = stripMark (stripTag s) := rfl

/-- A round takes a tag off, and then a mark. -/
theorem stripSubject_tag (h : bracketTag p = some []) (t : List Char) :
    stripSubject (trimBy isSpace (p ++ t)) = stripMark (trimBy isSpace t) := by
  obtain ⟨m⟩ := exists_tag h
  obtain ⟨u, htrim, hrest⟩ := m.trimBy_append t
  rw [stripSubject_eq, stripTag, htrim, m.matched]
  exact congrArg stripMark hrest

/-- In front of a mark there is no tag. -/
theorem bracketTag_of_mark (h : subjectPrefix s = some r) : bracketTag s = none := by
  rw [subjectPrefix_eq] at h
  obtain ⟨v, hv, hmatch⟩ := List.exists_of_findSome?_eq_some h
  obtain ⟨rest, hword, -⟩ := Option.bind_eq_some_iff.1 hmatch
  obtain ⟨c, hc, hlen, hletters, -⟩ := word_eq_some (fun a ha c =>
    markLetter_of_sameLetter (List.mem_map_of_mem hv) ha) hword
  cases c with
  | nil =>
    have hwords : ∀ w ∈ replyWords, w.toList ≠ [] := by decide
    exact absurd (List.length_eq_zero_iff.1 hlen.symm) (hwords v hv)
  | cons d c =>
    rw [bracketTag, hc, List.cons_append, bracketed_letter (hletters d List.mem_cons_self)]
    rfl

/-- A round takes a mark off, where there is no tag in front of it. -/
theorem stripSubject_mark (h : subjectPrefix p = some []) (t : List Char) :
    stripSubject (trimBy isSpace (p ++ t)) = trimBy isSpace t := by
  obtain ⟨m⟩ := exists_mark h
  obtain ⟨u, htrim, hrest⟩ := m.trimBy_append t
  rw [stripSubject_eq, stripTag, htrim, bracketTag_of_mark (m.matched u)]
  change stripMark (m.body ++ u) = _
  rw [stripMark, m.matched]
  exact hrest

/-- Where a mark is in front, a round takes it off. -/
theorem stripSubject_of_mark (h : subjectPrefix s = some r) : stripSubject s = stripMark s := by
  rw [stripSubject_eq, stripTag, bracketTag_of_mark h]
  rfl

end Patterns

/-! ## The rounds -/

section Rounds

variable {p s t r : List Char}

theorem length_trimBy_le (q : Char → Bool) (s : List Char) : (trimBy q s).length ≤ s.length := by
  rw [trimBy, List.length_reverse]
  refine Nat.le_trans (List.dropWhile_suffix q).length_le ?_
  rw [List.length_reverse]
  exact (List.dropWhile_suffix q).length_le

theorem mem_of_mem_trimBy {q : Char → Bool} {c : Char} (h : c ∈ trimBy q s) : c ∈ s := by
  rw [trimBy, List.mem_reverse] at h
  have hfront := (List.dropWhile_suffix q).subset h
  exact (List.dropWhile_suffix q).subset (List.mem_reverse.1 hfront)

/-- A pattern takes something off in front. -/
theorem bracketTag_cuts (h : bracketTag s = some r) : ∃ c, c ≠ [] ∧ s = c ++ r := by
  rw [bracketTag] at h
  obtain ⟨rest, hb, rfl⟩ := Option.map_eq_some_iff.1 h
  obtain ⟨c, hs, -⟩ := bracketed_eq_some hb
  obtain ⟨lead, hlead, -⟩ := takeWhile_append_dropWhile_spaces s
  obtain ⟨gap, hgap, -⟩ := takeWhile_append_dropWhile_spaces rest
  refine ⟨lead ++ '[' :: (c ++ ']' :: gap), by simp, ?_⟩
  conv => lhs; rw [hlead, hs, hgap]
  simp

theorem subjectPrefix_cuts (h : subjectPrefix s = some r) : ∃ c, c ≠ [] ∧ s = c ++ r := by
  rw [subjectPrefix_eq] at h
  obtain ⟨v, hv, hmatch⟩ := List.exists_of_findSome?_eq_some h
  obtain ⟨rest, hword, hafter⟩ := Option.bind_eq_some_iff.1 hmatch
  obtain ⟨c, hc, -⟩ := word_eq_some (fun a ha c =>
    markLetter_of_sameLetter (List.mem_map_of_mem hv) ha) hword
  obtain ⟨core, k, tail, hrest, -, -, rfl, -⟩ := afterWord_eq_some hafter
  obtain ⟨lead, hlead, -⟩ := takeWhile_append_dropWhile_spaces s
  obtain ⟨gap, hgap, -⟩ := takeWhile_append_dropWhile_spaces tail
  refine ⟨lead ++ (c ++ (core ++ k :: gap)), by simp, ?_⟩
  conv => lhs; rw [hlead, hc, hrest, hgap]
  simp

/-- What a pattern takes off is something. -/
theorem length_getD_lt {g : List Char → Option (List Char)}
    (hg : ∀ {s r}, g s = some r → ∃ c, c ≠ [] ∧ s = c ++ r) (s : List Char) :
    ((g s).map (trimBy isSpace)).getD s = s ∨
      (((g s).map (trimBy isSpace)).getD s).length < s.length := by
  cases h : g s with
  | none => exact .inl rfl
  | some r =>
    obtain ⟨c, hne, hs⟩ := hg h
    have hpos := List.length_pos_iff.2 hne
    have hle := length_trimBy_le isSpace r
    have hlen := congrArg List.length hs
    rw [List.length_append] at hlen
    exact .inr (Nat.lt_of_le_of_lt hle (by omega))

/-- What it leaves was there, and is trimmed if the whole was. -/
theorem getD_trimmed {g : List Char → Option (List Char)}
    (hg : ∀ {s r}, g s = some r → ∃ c, c ≠ [] ∧ s = c ++ r) (htrim : trimBy isSpace s = s) :
    trimBy isSpace (((g s).map (trimBy isSpace)).getD s) = ((g s).map (trimBy isSpace)).getD s ∧
      ∀ c ∈ ((g s).map (trimBy isSpace)).getD s, c ∈ s := by
  cases h : g s with
  | none => exact ⟨htrim, fun _ hc => hc⟩
  | some r =>
    obtain ⟨c, -, hs⟩ := hg h
    refine ⟨trimBy_trimBy isSpace r, fun d hd => ?_⟩
    rw [hs]
    exact List.mem_append_right c (mem_of_mem_trimBy hd)

/-- The rounds that take tags and marks off. -/
def strips : Shrinking (List Char) where
  step := stripSubject
  size := List.length
  smaller := by
    intro s hne
    rw [stripSubject_eq] at hne ⊢
    rcases length_getD_lt bracketTag_cuts s with htag | htag <;>
      rcases length_getD_lt subjectPrefix_cuts (stripTag s) with hmark | hmark
    · exact absurd (hmark.trans htag) hne
    · exact Nat.lt_of_lt_of_le hmark (Nat.le_of_eq (congrArg List.length htag))
    · exact Nat.lt_of_le_of_lt (Nat.le_of_eq (congrArg List.length hmark)) htag
    · exact Nat.lt_trans hmark htag

theorem stripSubjects_eq (n : Nat) (s : List Char) : stripSubjects n s = strips.step^[n] s := by
  induction n generalizing s with
  | zero => rfl
  | succ n ih =>
    rw [stripSubjects, Function.iterate_succ_apply]
    by_cases h : stripSubject s = s
    · rw [if_pos h]
      have hfixed : strips.step s = s := h
      rw [hfixed, Function.iterate_fixed hfixed]
    · rw [if_neg h]
      exact ih _

/-- The texts in front of a subject. -/
def IsMark (p : List Char) : Prop := subjectPrefix p = some [] ∨ bracketTag p = some []

/-- A tag in front is taken off in the next round. -/
theorem rounds_of_tag (h : bracketTag s = some r) : strips.rounds s ≠ 0 := by
  rw [ne_eq, ← Shrinking.step_eq_iff]
  intro hfixed
  have hlen : (stripSubject s).length = s.length := congrArg List.length hfixed
  have htag : (stripTag s).length < s.length := by
    obtain ⟨c, hne, hs⟩ := bracketTag_cuts h
    have hpos := List.length_pos_iff.2 hne
    have hle := length_trimBy_le isSpace r
    rw [stripTag, h, hs, List.length_append]
    exact Nat.lt_of_le_of_lt hle (by omega)
  rw [stripSubject_eq] at hlen
  rcases length_getD_lt subjectPrefix_cuts (stripTag s) with hmark | hmark
  · rw [stripMark, hmark] at hlen
    omega
  · rw [stripMark] at hlen
    omega

/-- One round of a subject under a mark: the mark is taken off, and where it is a tag perhaps the
mark behind it, which a round of the subject takes off as well. -/
theorem round_under_mark (h : IsMark p) (t : List Char) :
    strips.rounds (trimBy isSpace t) ≤ strips.rounds (trimBy isSpace (p ++ t)) ∧
      (strips.step (trimBy isSpace (p ++ t)) = trimBy isSpace t ∨
        strips.step (trimBy isSpace (p ++ t)) = strips.step (trimBy isSpace t)) := by
  have hround := Shrinking.rounds_step (f := strips) (trimBy isSpace (p ++ t))
  rcases h with hmark | htag
  · have hstep : strips.step (trimBy isSpace (p ++ t)) = trimBy isSpace t := stripSubject_mark hmark t
    rw [hstep] at hround
    exact ⟨by omega, .inl hstep⟩
  · have hstep : strips.step (trimBy isSpace (p ++ t)) = stripMark (trimBy isSpace t) :=
      stripSubject_tag htag t
    cases hnext : subjectPrefix (trimBy isSpace t) with
    | none =>
      have hkept : stripMark (trimBy isSpace t) = trimBy isSpace t := by
        rw [stripMark, hnext]
        rfl
      rw [hkept] at hstep
      rw [hstep] at hround
      exact ⟨by omega, .inl hstep⟩
    | some r =>
      have hsame : stripMark (trimBy isSpace t) = strips.step (trimBy isSpace t) :=
        (stripSubject_of_mark hnext).symm
      rw [hsame] at hstep
      have hround' := Shrinking.rounds_step (f := strips) (trimBy isSpace t)
      obtain ⟨m⟩ := exists_tag htag
      obtain ⟨u, htrim, -⟩ := m.trimBy_append t
      have hpos : strips.rounds (trimBy isSpace (p ++ t)) ≠ 0 := by
        rw [htrim]
        exact rounds_of_tag (m.matched u)
      rw [hstep] at hround
      exact ⟨by omega, .inr hstep⟩

/-- **A subject under marks** comes to what the subject comes to, after a round of it at most, and
takes no fewer rounds. -/
theorem merges {marks : List (List Char)} (h : ∀ p ∈ marks, IsMark p) (t : List Char) :
    ∃ m n, n ≤ m ∧ n ≤ 1 ∧
      strips.step^[m] (trimBy isSpace (marks.flatten ++ t)) = strips.step^[n] (trimBy isSpace t) ∧
      strips.rounds (trimBy isSpace t) ≤ strips.rounds (trimBy isSpace (marks.flatten ++ t)) := by
  induction marks with
  | nil => exact ⟨0, 0, Nat.le_refl 0, Nat.zero_le 1, rfl, Nat.le_refl _⟩
  | cons p marks ih =>
    obtain ⟨m, n, hle, hone, hsame, hrounds⟩ := ih fun q hq => h q (List.mem_cons_of_mem p hq)
    rw [List.flatten_cons, List.append_assoc]
    generalize marks.flatten ++ t = rest at hsame hrounds ⊢
    obtain ⟨hmore, hstep | hstep⟩ := round_under_mark (h p List.mem_cons_self) rest
    · refine ⟨m + 1, n, Nat.le_succ_of_le hle, hone, ?_, Nat.le_trans hrounds hmore⟩
      rw [Function.iterate_succ_apply, hstep, hsame]
    · cases m with
      | succ m =>
        refine ⟨m + 1, n, hle, hone, ?_, Nat.le_trans hrounds hmore⟩
        rw [Function.iterate_succ_apply, hstep, ← Function.iterate_succ_apply, hsame]
      | zero =>
        -- the subject begins with the mark that the round takes off
        obtain rfl : n = 0 := Nat.le_zero.1 hle
        refine ⟨1, 1, Nat.le_refl 1, Nat.le_refl 1, ?_, Nat.le_trans hrounds hmore⟩
        rw [Function.iterate_one, hstep]
        exact congrArg strips.step hsame

end Rounds

/-! ## Keys -/

section Keys

variable {H : Headers} {s : String}

/-- The subject is not one of those that stand for none. -/
def Ordinary (H : Headers) (s : String) : Prop :=
  trimSpace (H.toLower s) ≠ "(no subject)" ∧ trimSpace (H.toLower s) ≠ "no subject"

/-- How many rounds a subject takes. -/
def roundsOf (H : Headers) (s : String) : Nat := strips.rounds (trimSpace (H.toLower s)).toList

/-- A subject under texts. -/
def stacked (marks : List String) (s : String) : String := marks.foldr (· ++ ·) s

theorem strips_nil (n : Nat) : strips.step^[n] [] = [] := Function.iterate_fixed (by rfl) n

theorem subjectKey_eq (h : Ordinary H s) :
    subjectKey H s = String.ofList (strips.step^[10] (trimSpace (H.toLower s)).toList) := by
  rw [subjectKey]
  by_cases hnil : trimSpace (H.toLower s) = ""
  · rw [if_pos (.inl hnil), hnil]
    exact congrArg String.ofList (strips_nil 10).symm
  · rw [if_neg (by simp [hnil, h.1, h.2]), stripSubjects_eq]

/-- What is under a mark is ordinary. -/
theorem ordinary_of_isMark {p : List Char} (h : IsMark p) (t : List Char) :
    trimBy isSpace (p ++ t) ≠ "(no subject)".toList ∧ trimBy isSpace (p ++ t) ≠ "no subject".toList := by
  have hnone : ∀ w ∈ ["(no subject)", "no subject"],
      subjectPrefix w.toList = none ∧ bracketTag w.toList = none := by decide
  have hsome : ∀ w ∈ ["(no subject)", "no subject"], trimBy isSpace (p ++ t) ≠ w.toList := by
    intro w hw heq
    obtain ⟨hmark, htag⟩ := hnone w hw
    rcases h with h | h
    · obtain ⟨m⟩ := exists_mark h
      obtain ⟨u, hu, -⟩ := m.trimBy_append t
      rw [← heq, hu, m.matched] at hmark
      cases hmark
    · obtain ⟨m⟩ := exists_tag h
      obtain ⟨u, hu, -⟩ := m.trimBy_append t
      rw [← heq, hu, m.matched] at htag
      cases htag
  exact ⟨hsome _ (by simp), hsome _ (by simp)⟩

variable {marks : List String}

theorem lowered_eq (W : H.CharWise) (s : String) :
    (trimSpace (H.toLower s)).toList = trimBy isSpace (s.toList.map W.lower) := by
  rw [trimSpace, W.toLower_eq, String.toList_ofList, String.toList_ofList]

/-- The texts in lower case, and the subject under them. -/
theorem lowered_stacked (W : H.CharWise) (marks : List String) (s : String) :
    (trimSpace (H.toLower (stacked marks s))).toList = trimBy isSpace
      ((marks.map fun p => (H.toLower p).toList).flatten ++ s.toList.map W.lower) := by
  rw [lowered_eq W]
  congr 1
  induction marks with
  | nil => rfl
  | cons p marks ih =>
    rw [stacked, List.foldr_cons, String.toList_append, List.map_append]
    rw [stacked] at ih
    rw [ih, List.map_cons, List.flatten_cons, W.toLower_eq, String.toList_ofList, List.append_assoc]

theorem ordinary_stacked (W : H.CharWise) (hmarks : ∀ p ∈ marks, IsMark (H.toLower p).toList)
    (hs : Ordinary H s) : Ordinary H (stacked marks s) := by
  cases marks with
  | nil => exact hs
  | cons p marks =>
    have hlowered := lowered_stacked W (p :: marks) s
    rw [List.map_cons, List.flatten_cons, List.append_assoc] at hlowered
    have hord := ordinary_of_isMark (hmarks p List.mem_cons_self)
      ((marks.map fun p => (H.toLower p).toList).flatten ++ s.toList.map W.lower)
    rw [← hlowered] at hord
    exact ⟨fun heq => hord.1 (congrArg String.toList heq), fun heq =>
      hord.2 (congrArg String.toList heq)⟩

/-- A key is in lower case and trimmed. -/
theorem lowered_subjectKey (W : H.CharWise) (hidem : ∀ c, W.lower (W.lower c) = W.lower c)
    (hs : Ordinary H s) :
    (trimSpace (H.toLower (subjectKey H s))).toList = (subjectKey H s).toList := by
  have hrounds : ∀ n, trimBy isSpace (strips.step^[n] (trimSpace (H.toLower s)).toList) =
      strips.step^[n] (trimSpace (H.toLower s)).toList ∧
      ∀ c ∈ strips.step^[n] (trimSpace (H.toLower s)).toList, W.lower c = c := by
    intro n
    induction n with
    | zero =>
      rw [Function.iterate_zero, id, lowered_eq W]
      refine ⟨trimBy_trimBy _ _, fun c hc => ?_⟩
      obtain ⟨d, -, rfl⟩ := List.mem_map.1 (mem_of_mem_trimBy hc)
      exact hidem d
    | succ n ih =>
      rw [Function.iterate_succ_apply']
      generalize strips.step^[n] (trimSpace (H.toLower s)).toList = x at ih ⊢
      have htag := getD_trimmed bracketTag_cuts ih.1
      have hmark := getD_trimmed subjectPrefix_cuts htag.1
      exact ⟨hmark.1, fun c hc => ih.2 c (htag.2 c (hmark.2 c hc))⟩
  obtain ⟨htrim, hlower⟩ := hrounds 10
  rw [lowered_eq W, subjectKey_eq hs, String.toList_ofList, List.map_congr_left hlower, List.map_id',
    htrim]

theorem toLower_asciiLower (c : Char) : c.toLower.toLower = c.toLower := by
  rcases Decidable.em (c.toNat < 0x80) with h | h
  · have hall : ∀ n < 0x80, (Char.ofNat n).toLower.toLower = (Char.ofNat n).toLower := by decide
    rw [← Char.ofNat_toNat c]
    exact hall c.toNat h
  · have hne : ¬ (c.val ≥ 'A'.val ∧ c.val ≤ 'Z'.val) := by
      intro hc
      have hle : c.toNat ≤ 90 := hc.2
      omega
    have hlow : c.toLower = c := dif_neg hne
    rw [hlow, hlow]

/-- **The key is that of the subject without the marks** exactly where ten rounds take them all
off, or the marks cost no round more; and a key is its own key where ten rounds have been enough. -/
theorem subjectKey_marks_iff (W : H.CharWise) (hidem : ∀ c, W.lower (W.lower c) = W.lower c)
    (hmarks : ∀ p ∈ marks, IsMark (H.toLower p).toList) (hs : Ordinary H s) :
    (subjectKey H (stacked marks s) = subjectKey H s ↔
      roundsOf H (stacked marks s) ≤ 10 ∨ roundsOf H (stacked marks s) = roundsOf H s) ∧
    (Ordinary H (subjectKey H s) →
      (subjectKey H (subjectKey H s) = subjectKey H s ↔ roundsOf H s ≤ 10)) := by
  constructor
  · have hlists : ∀ p ∈ marks.map fun p => (H.toLower p).toList, IsMark p := by
      intro p hp
      obtain ⟨q, hq, rfl⟩ := List.mem_map.1 hp
      exact hmarks q hq
    obtain ⟨m, n, -, hone, hsame, hmore⟩ := merges hlists (s.toList.map W.lower)
    rw [← lowered_stacked W, ← lowered_eq W] at hsame hmore
    rw [subjectKey_eq (ordinary_stacked W hmarks hs), subjectKey_eq hs, String.ofList_inj,
      Shrinking.iterate_eq_iff hsame (by omega), roundsOf, roundsOf]
    omega
  · intro hkey
    have hlowered := lowered_subjectKey W hidem hs
    rw [subjectKey_eq hkey, hlowered, subjectKey_eq hs, String.toList_ofList, String.ofList_inj,
      Shrinking.iterate_iterate_iff (by decide)]
    rfl

end Keys

theorem subjectKey_reply :
    (subjectKey asciiHeaders (stacked ["Re: ", "[tag] ", "Fwd: "] "Hello") =
        subjectKey asciiHeaders "Hello" ↔
      roundsOf asciiHeaders (stacked ["Re: ", "[tag] ", "Fwd: "] "Hello") ≤ 10 ∨
        roundsOf asciiHeaders (stacked ["Re: ", "[tag] ", "Fwd: "] "Hello") =
          roundsOf asciiHeaders "Hello") ∧
    (Ordinary asciiHeaders (subjectKey asciiHeaders "Hello") →
      (subjectKey asciiHeaders (subjectKey asciiHeaders "Hello") = subjectKey asciiHeaders "Hello" ↔
        roundsOf asciiHeaders "Hello" ≤ 10)) := by
  have hmarks : ∀ p ∈ ["Re: ", "[tag] ", "Fwd: "],
      subjectPrefix (asciiHeaders.toLower p).toList = some [] ∨
        bracketTag (asciiHeaders.toLower p).toList = some [] := by decide +kernel
  have hord : trimSpace (asciiHeaders.toLower "Hello") ≠ "(no subject)" ∧
      trimSpace (asciiHeaders.toLower "Hello") ≠ "no subject" := by decide +kernel
  exact subjectKey_marks_iff asciiCharWise toLower_asciiLower hmarks hord

/-- **Eleven marks** are one too many. -/
theorem eleven_replies :
    ¬ ∀ (marks : List String) (s : String), (∀ p ∈ marks, IsMark (asciiHeaders.toLower p).toList) →
      subjectKey asciiHeaders (stacked marks s) = subjectKey asciiHeaders s := by
  intro h
  have hmarks : ∀ p ∈ List.replicate 11 "Re:",
      subjectPrefix (asciiHeaders.toLower p).toList = some [] ∨
        bracketTag (asciiHeaders.toLower p).toList = some [] := by decide +kernel
  have hkey : subjectKey asciiHeaders (stacked (List.replicate 11 "Re:") "x") ≠
      subjectKey asciiHeaders "x" := by decide +kernel
  exact hkey (h (List.replicate 11 "Re:") "x" hmarks)

end E2Mail.Imap
