import E2Mail.Sieve.Framing

/-!
# When the commands keep to their responses

The proof of `framed_iff`. Each command reads its response from an empty link on, so a
dialogue is framed exactly when every exchange of it is: `exact_iff`.

* A status is read in one line unless there is a literal in it; then the rest of it is left.
* Data pass as long as no line of them looks final.
* Of a script the announced length is read, whatever it says.
* A challenge is answered if a line of it begins with a plus sign.
-/

namespace E2Mail.ManageSieve

open Lib Lib.Text
open Backend (isSpace)

variable {L : TextLib} {α κ : Type}

/-! ## Loops over lines -/

section Loops

variable {readErr : String} {body : Text → κ → Link → Link × (κ ⊕ Except Fault α)} {n : Nat} {s : κ}
  {line rest : Octets} {coming : List Octets}

theorem eachLine_end :
    eachLine readErr body n s ⟨[], coming⟩ = (⟨[], coming⟩, .error (.read readErr)) := by
  cases n with
  | zero => rfl
  | succ n => rfl

theorem eachLine_blank (h : 10 ∉ line) (hline : trimmed (dropCR line) = []) :
    eachLine readErr body (n + 1) s ⟨line ++ 10 :: rest, coming⟩ =
      eachLine readErr body n s ⟨rest, coming⟩ := by
  rw [eachLine, readLine_line h]
  exact if_pos hline

theorem eachLine_next {s' : κ} {k' : Link} (h : 10 ∉ line) (hline : trimmed (dropCR line) ≠ [])
    (hbody : body (trimmed (dropCR line)) s ⟨rest, coming⟩ = (k', .inl s')) :
    eachLine readErr body (n + 1) s ⟨line ++ 10 :: rest, coming⟩ =
      eachLine readErr body n s' k' := by
  rw [eachLine, readLine_line h]
  dsimp only
  rw [if_neg hline, hbody]

theorem eachLine_last {result : Except Fault α} {k' : Link} (h : 10 ∉ line)
    (hline : trimmed (dropCR line) ≠ [])
    (hbody : body (trimmed (dropCR line)) s ⟨rest, coming⟩ = (k', .inr result)) :
    eachLine readErr body (n + 1) s ⟨line ++ 10 :: rest, coming⟩ = (k', result) := by
  rw [eachLine, readLine_line h]
  dsimp only
  rw [if_neg hline, hbody]

/-- A line that is in the error of a loop is one that its body has put there. -/
theorem eachLine_replied {p : Text → Prop}
    (hbody : ∀ line s k k' before reply,
      body line s k = (k', .inr (.error (.replied before reply))) → p reply) :
    ∀ (n : Nat) (s : κ) (k : Link) (before : String) (reply : Text),
      (eachLine readErr body n s k).2 = .error (.replied before reply) → p reply := by
  intro n
  induction n with
  | zero =>
    intro s k before reply h
    cases h
  | succ n ih =>
    intro s k before reply h
    rw [eachLine] at h
    split at h
    · cases h
    · rename_i line rest hread
      split at h
      · exact ih _ _ before reply h
      · split at h
        · exact ih _ _ before reply h
        · rename_i k' result hres
          dsimp only at h
          rw [h] at hres
          exact hbody _ _ _ _ _ _ hres

end Loops

/-! ## Final lines -/

/-- `unicode.ToUpper` in ASCII. -/
def UpperASCII (L : TextLib) : Prop := ∀ c : Char, c.toNat < 0x80 → L.toUpper c = c.toUpper

theorem toNat_ofNat {b : UInt8} (hb : b < 0x80) : (Char.ofNat b.toNat).toNat < 0x80 := by
  have hall : ∀ n < 0x80, (Char.ofNat n).toNat < 0x80 := by decide
  exact hall b.toNat hb

/-- A line with a status word in front, alone or before a blank. -/
def Begins (L : TextLib) (word : Text) (line : Text) : Prop :=
  toUpper L line = word ∨ ∃ t, toUpper L line = word ++ ' ' :: t

theorem Begins.ne_nil {word line : Text} (h : Begins L word line) (hword : word ≠ []) :
    line ≠ [] := by
  rintro rfl
  obtain h | ⟨t, h⟩ := h
  · exact hword h.symm
  · exact List.append_ne_nil_of_left_ne_nil hword _ h.symm

theorem Begins.isPrefixOf {word line : Text} (h : Begins L word line) :
    word.isPrefixOf (toUpper L line) = true := by
  rw [List.isPrefixOf_iff_prefix]
  obtain h | ⟨t, h⟩ := h
  · exact h ▸ List.prefix_rfl
  · exact ⟨' ' :: t, h.symm⟩

theorem isFinalLine_of_begins {word line : Text} (h : Begins L word line)
    (hword : word = "OK".toList ∨ word = "NO".toList) : isFinalLine L line = true := by
  have hall : toUpper L line == word || (word ++ [' ']).isPrefixOf (toUpper L line) := by
    obtain h | ⟨t, h⟩ := h
    · rw [Bool.or_eq_true]
      exact .inl (beq_iff_eq.mpr h)
    · rw [Bool.or_eq_true]
      refine .inr (List.isPrefixOf_iff_prefix.mpr ⟨t, ?_⟩)
      rw [h, List.append_assoc]
      rfl
  rw [isFinalLine, List.any_eq_true]
  obtain rfl | rfl := hword
  · exact ⟨"OK", by simp, by rw [hall]; rfl⟩
  · exact ⟨"NO", by simp, by rw [hall]; rfl⟩

theorem isFailureLine_of_ok {line : Text} (h : Begins L "OK".toList line) :
    isFailureLine L line = false := by
  rw [isFailureLine]
  obtain h | ⟨t, h⟩ := h
  · rw [h]
    rfl
  · rw [h]
    rfl

theorem isFailureLine_of_no {line : Text} (h : Begins L "NO".toList line) :
    isFailureLine L line = true := by
  rw [isFailureLine, h.isPrefixOf]
  rfl

/-- A final line has one of three letters in front. -/
theorem head_of_isFinalLine {line : Text} (h : isFinalLine L line = true) :
    ∃ c t, toUpper L line = c :: t ∧ (c = 'O' ∨ c = 'N' ∨ c = 'B') ∧
      (c = 'B' → 'A' ∈ t.head?) := by
  rw [isFinalLine, List.any_eq_true] at h
  obtain ⟨p, hp, h⟩ := h
  have hprefix : p.toList <+: toUpper L line := by
    rw [Bool.or_eq_true, Bool.or_eq_true, beq_iff_eq, List.isPrefixOf_iff_prefix,
      List.isPrefixOf_iff_prefix] at h
    obtain (h | h) | h := h
    · exact h ▸ List.prefix_rfl
    · exact (List.prefix_append _ _).trans h
    · exact (List.prefix_append _ _).trans h
  obtain ⟨t, ht⟩ := hprefix
  simp only [List.mem_cons, List.not_mem_nil, or_false] at hp
  obtain rfl | rfl | rfl := hp
  · exact ⟨'O', 'K' :: t, ht.symm, .inl rfl, fun h => absurd h (by decide)⟩
  · exact ⟨'N', 'O' :: t, ht.symm, .inr (.inl rfl), fun h => absurd h (by decide)⟩
  · exact ⟨'B', 'A' :: 'D' :: t, ht.symm, .inr (.inr rfl), fun _ => rfl⟩

/-- No final line says `BYE`. -/
theorem not_bye_of_isFinalLine {line : Text} (h : isFinalLine L line = true) :
    "BYE".toList.isPrefixOf (toUpper L line) = false := by
  obtain ⟨c, t, hline, -, hbad⟩ := head_of_isFinalLine h
  rw [hline, Bool.eq_false_iff]
  intro hbye
  obtain ⟨u, hu⟩ := List.isPrefixOf_iff_prefix.mp hbye
  obtain ⟨hc, ht⟩ := List.cons.inj hu
  have hhead := hbad hc.symm
  rw [← ht] at hhead
  cases hhead

/-- What a client takes from a text in ASCII with nothing blank at its ends. -/
theorem trimmed_append {s : Octets} (hs : ∀ b ∈ s, b < 0x80) (hne : s ≠ [])
    (hhead : ∀ b ∈ s.head?, isSpace (Char.ofNat b.toNat) = false)
    (hlast : ∀ b ∈ s.getLast?, isSpace (Char.ofNat b.toNat) = false) (t : Octets) :
    trimmed (s ++ t) = s.map (fun b => Char.ofNat b.toNat) ++
      ((decode t).reverse.dropWhile isSpace).reverse := by
  rw [trimmed, decode_append hs, trimSpace, trimBy_append]
  · exact mt List.map_eq_nil_iff.mp hne
  · intro c hc
    rw [List.head?_map, Option.mem_map] at hc
    obtain ⟨b, hb, rfl⟩ := hc
    exact hhead b hb
  · intro c hc
    rw [List.getLast?_map, Option.mem_map] at hc
    obtain ⟨b, hb, rfl⟩ := hc
    exact hlast b hb

/-! ## The line of a status -/

theorem mem_escapeQuoted {s : Octets} {b : UInt8} (h : b ∈ escapeQuoted s) : b ∈ s ∨ b = 92 := by
  rw [escapeQuoted, List.mem_flatMap] at h
  obtain ⟨c, hc, h⟩ := h
  split at h
  · obtain rfl | h := List.mem_cons.mp h
    · exact .inr rfl
    · rw [List.mem_singleton.mp h]
      exact .inl hc
  · rw [List.mem_singleton.mp h]
    exact .inl hc

/-- A string has a line end in it only as a literal. -/
theorem mem_octets_str {s : Str} (h : s.Conforms) : 10 ∈ s.octets ↔ s.IsLiteral := by
  cases s with
  | quoted s =>
    refine ⟨fun hmem => ?_, False.elim⟩
    rw [Str.octets, List.mem_append, List.mem_cons, List.mem_singleton] at hmem
    obtain (hmem | hmem) | hmem := hmem
    · cases hmem
    · obtain hmem | hmem := mem_escapeQuoted hmem
      · exact (h 10 hmem).2.1 rfl
      · cases hmem
    · cases hmem
  | literal s =>
    refine ⟨fun _ => trivial, fun _ => ?_⟩
    rw [Str.octets, lineEnd]
    simp

theorem mem_codeOctets {items : List CodeItem} (h : ∀ item ∈ items, item.Conforms) :
    10 ∈ codeOctets items ↔ ∃ s, .str s ∈ items ∧ s.IsLiteral := by
  have hitem : ∀ item ∈ items, (10 ∈ item.octets ↔ ∃ s, item = .str s ∧ s.IsLiteral) := by
    intro item hmem
    cases item with
    | bare s =>
      refine ⟨fun hb => ?_, fun ⟨t, ht, _⟩ => by cases ht⟩
      exact absurd (h _ hmem 10 hb).1 (by decide)
    | str s =>
      refine (mem_octets_str (h _ hmem)).trans ⟨fun hs => ⟨s, rfl, hs⟩, ?_⟩
      rintro ⟨t, ht, hlit⟩
      cases ht
      exact hlit
  induction items with
  | nil => simp [codeOctets]
  | cons item items ih =>
    obtain ⟨hfirst, hrest⟩ := List.forall_mem_cons.mp hitem
    have hitems : 10 ∈ codeOctets items ↔ ∃ s : Str, .str s ∈ items ∧ s.IsLiteral :=
      ih (List.forall_mem_cons.mp h).2 hrest
    cases items with
    | nil =>
      rw [codeOctets, hfirst]
      simp only [List.mem_singleton]
      exact exists_congr fun s => and_congr_left fun _ => eq_comm
    | cons next items =>
      have hstep : codeOctets (item :: next :: items) =
          item.octets ++ 32 :: codeOctets (next :: items) := rfl
      rw [hstep, List.mem_append, List.mem_cons, hfirst, hitems]
      constructor
      · rintro (⟨s, hs, hlit⟩ | hblank | ⟨s, hs, hlit⟩)
        · exact ⟨s, hs ▸ List.mem_cons_self, hlit⟩
        · cases hblank
        · exact ⟨s, List.mem_cons_of_mem _ hs, hlit⟩
      · rintro ⟨s, hs, hlit⟩
        obtain hs | hs := List.mem_cons.mp hs
        · exact .inl ⟨s, hs.symm, hlit⟩
        · exact .inr (.inr ⟨s, hs, hlit⟩)

theorem octets_eq_cons (s : Str) : ∃ b t, s.octets = b :: t ∧ (b = 34 ∨ b = 123) := by
  cases s with
  | quoted s => exact ⟨34, _, rfl, .inl rfl⟩
  | literal s => exact ⟨123, _, rfl, .inr rfl⟩

/-- After its word a status has nothing, or a blank and a bracket, a quote or a brace. -/
theorem tail_cases {st : Status} (h : st.Conforms) :
    (st.tail = [] ∧ st.NoLiteral) ∨
    ∃ b t, st.tail = 32 :: b :: t ∧ (b = 40 ∨ b = 34 ∨ b = 123) ∧ (10 ∈ t ↔ ¬st.NoLiteral) := by
  obtain ⟨word, spelling, code, text⟩ := st
  have htext : ∀ s, text = some s → (10 ∈ s.octets ↔ s.IsLiteral) :=
    fun s hs => mem_octets_str (h.text s hs)
  have hcode : ∀ items, code = some items →
      (10 ∈ codeOctets items ↔ ∃ s, .str s ∈ items ∧ s.IsLiteral) :=
    fun items hitems => mem_codeOctets (h.code items hitems)
  rw [Status.tail, Status.NoLiteral]
  cases code with
  | none =>
    cases text with
    | none => exact .inl ⟨rfl, by simp, by simp⟩
    | some text =>
      obtain ⟨b, t, hb, hkind⟩ := octets_eq_cons text
      refine .inr ⟨b, t, by rw [← hb]; rfl, .inr hkind, ?_⟩
      have hmem := htext text rfl
      have hne : 10 ≠ b := by
        obtain rfl | rfl := hkind
        · decide
        · decide
      rw [hb, List.mem_cons, or_iff_right hne] at hmem
      simp [hmem]
  | some items =>
    refine .inr ⟨40, _, rfl, .inl rfl, ?_⟩
    have hmem := hcode items rfl
    cases text with
    | none =>
      simp [hmem]
    | some text =>
      have hmem' := htext text rfl
      simp [hmem, hmem', or_iff_not_imp_left]

/-- A letter of a status word is nothing blank, and no brace. -/
theorem letter_of_name {word : StatusWord} {b : UInt8} (hb : b < 0x80)
    (h : (Char.ofNat b.toNat).toUpper ∈ word.name) : isSpace (Char.ofNat b.toNat) = false ∧ b ≠ 10 := by
  have hall : ∀ n < 0x80, ∀ word : StatusWord, (Char.ofNat n).toUpper ∈ word.name →
      isSpace (Char.ofNat n) = false ∧ n ≠ 10 := by
    intro n hn word
    revert n
    cases word with
    | ok => decide
    | no => decide
    | bye => decide
  obtain ⟨hspace, hne⟩ := hall b.toNat hb word h
  exact ⟨hspace, fun heq => hne (by rw [heq]; rfl)⟩

/-- What the client sees of a line that begins with a status word. -/
theorem begins_of_spelling (hL : UpperASCII L) {st : Status} (h : st.Conforms) (rest : Octets)
    (hrest : rest = [] ∨ ∃ b t, rest = 32 :: b :: t ∧ (b = 40 ∨ b = 34 ∨ b = 123)) :
    Begins L st.word.name (trimmed (st.spelling ++ rest)) := by
  have hname : st.word.name ≠ [] := by cases st.word <;> decide
  have hspelling := h.spelling
  have hletter : ∀ b ∈ st.spelling, isSpace (Char.ofNat b.toNat) = false := by
    intro b hb
    refine (@letter_of_name st.word b (h.ascii b hb) ?_).1
    rw [← hspelling]
    exact List.mem_map_of_mem hb
  have hne : st.spelling ≠ [] := by
    intro hnil
    rw [hnil] at hspelling
    exact hname hspelling.symm
  have hupper : toUpper L (st.spelling.map fun b => Char.ofNat b.toNat) = st.word.name := by
    rw [toUpper, List.map_map, ← hspelling]
    exact List.map_congr_left fun b hb => hL _ (toNat_ofNat (h.ascii b hb))
  obtain rfl | ⟨b, t, rfl, hb⟩ := hrest
  · left
    rw [trimmed_append h.ascii hne (fun b hb => hletter b (List.mem_of_mem_head? hb))
      (fun b hb => hletter b (List.mem_of_mem_getLast? hb))]
    rw [decode_nil, List.reverse_nil, List.dropWhile_nil, List.reverse_nil, List.append_nil, hupper]
  · right
    have hascii : b < 0x80 ∧ isSpace (Char.ofNat b.toNat) = false := by
      obtain rfl | rfl | rfl := hb <;> decide
    have hsplit : st.spelling ++ 32 :: b :: t = (st.spelling ++ [32, b]) ++ t := by simp
    have hhead : ∀ c ∈ (st.spelling ++ [32, b]).head?, isSpace (Char.ofNat c.toNat) = false := by
      rw [List.head?_append_of_ne_nil _ hne]
      exact fun c hc => hletter c (List.mem_of_mem_head? hc)
    have hlast : ∀ c ∈ (st.spelling ++ [32, b]).getLast?, isSpace (Char.ofNat c.toNat) = false := by
      rw [List.getLast?_append]
      rintro c hc
      cases hc
      exact hascii.2
    rw [hsplit, trimmed_append _ (List.append_ne_nil_of_left_ne_nil hne _) hhead hlast]
    · refine ⟨L.toUpper (Char.ofNat b.toNat) :: toUpper L ((decode t).reverse.dropWhile isSpace).reverse, ?_⟩
      have hblank : L.toUpper ' ' = ' ' := hL ' ' (by decide)
      rw [List.map_append, toUpper, List.map_append, List.map_append, ← toUpper, hupper, ← toUpper]
      change _ ++ [L.toUpper ' ', _] ++ _ = _
      rw [hblank, List.append_assoc]
      rfl
    · intro c hc
      obtain hc | hc := List.mem_append.mp hc
      · exact h.ascii c hc
      · obtain rfl | hc := List.mem_cons.mp hc
        · decide
        · rw [List.mem_singleton.mp hc]
          exact hascii.1

theorem dropCR_append_cons {b : UInt8} (hb : b ≠ 13) (s t : Octets) :
    dropCR (s ++ b :: t) = s ++ b :: dropCR t := by
  cases t with
  | nil =>
    rw [dropCR, List.getLast?_concat, if_neg fun h => hb (Option.some.inj h)]
    rfl
  | cons c t =>
    have hlast : (s ++ b :: c :: t).getLast? = (c :: t).getLast? := by
      rw [List.getLast?_append_cons, List.getLast?_cons_cons]
    have hdrop : (s ++ b :: c :: t).dropLast = s ++ b :: (c :: t).dropLast := by
      rw [List.dropLast_append_of_ne_nil (List.cons_ne_nil _ _)]
      rfl
    rw [dropCR, dropCR, hlast, hdrop]
    split
    · rfl
    · rfl

/-- **The line of a status** as the client reads it, and what is left: nothing unless there is
a literal in the status. -/
theorem status_line (hL : UpperASCII L) {st : Status} (h : st.Conforms) :
    ∃ line rest, st.octets = line ++ 10 :: rest ∧ 10 ∉ line ∧ (rest = [] ↔ st.NoLiteral) ∧
      Begins L st.word.name (trimmed (dropCR line)) := by
  have hfree : 10 ∉ st.spelling := by
    intro hmem
    refine (@letter_of_name st.word 10 (by decide) ?_).2 rfl
    rw [← h.spelling]
    exact List.mem_map_of_mem hmem
  rw [Status.octets, lineEnd]
  obtain ⟨htail, hplain⟩ | ⟨b, t, htail, hb, hlit⟩ := tail_cases h
  · refine ⟨st.spelling ++ [13], [], by simp [htail], by simp [hfree], by simp [hplain], ?_⟩
    rw [dropCR_append]
    have hbegins := begins_of_spelling hL h [] (.inl rfl)
    rwa [List.append_nil] at hbegins
  · have hb13 : b ≠ 13 ∧ b ≠ 10 := by obtain rfl | rfl | rfl := hb <;> decide
    -- the line goes on to the first line end, that of a literal or the last
    by_cases hmem : 10 ∈ t
    · obtain ⟨t₁, t₂, rfl, ht₁⟩ := List.eq_append_cons_of_mem hmem
      refine ⟨st.spelling ++ 32 :: b :: t₁, t₂ ++ [13, 10], by simp [htail],
        by simp [hfree, ht₁, hb13.2.symm], by simp [hlit.mp hmem], ?_⟩
      have happ := dropCR_append_cons hb13.1 (st.spelling ++ [32]) t₁
      simp only [List.append_assoc, List.singleton_append] at happ
      rw [happ]
      exact begins_of_spelling hL h _ (.inr ⟨b, _, rfl, hb⟩)
    · have hplain : st.NoLiteral := by
        by_contra hnot
        exact hmem (hlit.mpr hnot)
      refine ⟨st.spelling ++ 32 :: b :: t ++ [13], [], by simp [htail],
        by simp [hfree, hmem, hb13.2.symm], by simp [hplain], ?_⟩
      rw [dropCR_append]
      exact begins_of_spelling hL h _ (.inr ⟨b, _, rfl, hb⟩)

/-! ## Reports -/

theorem reports_wrap {word : StatusWord} {before : String} (result : Except Fault α) :
    Reports L word ((result.mapError (Fault.wrap before)).map fun _ => ()) ↔
      Reports L word (result.map fun _ => ()) := by
  cases result with
  | ok value => exact Iff.rfl
  | error fault =>
    cases word with
    | ok =>
      constructor
      · intro h
        cases h
      · intro h
        cases h
    | no | bye =>
      cases fault with
      | replied b line =>
        constructor
        · rintro ⟨_, _, h, hline⟩
          cases h
          exact ⟨b, line, rfl, hline⟩
        · rintro ⟨_, _, h, hline⟩
          cases h
          exact ⟨before ++ b, line, rfl, hline⟩
      | _ =>
        constructor
        · rintro ⟨_, _, h, -⟩
          cases h
        · rintro ⟨_, _, h, -⟩
          cases h

/-- The final line of a response reports its status. -/
theorem reports_final {word : StatusWord} (hword : word ≠ .bye) {before : String} {value : α}
    {line : Text} (h : Begins L word.name line) :
    Reports L word ((finalResult L before value line).map fun _ => ()) := by
  rw [finalResult]
  cases word with
  | ok =>
    rw [isFailureLine_of_ok h]
    rfl
  | no =>
    rw [isFailureLine_of_no h]
    exact ⟨before, line, rfl, h.isPrefixOf⟩
  | bye => exact absurd rfl hword

theorem name_final {word : StatusWord} (hword : word ≠ .bye) {line : Text}
    (h : Begins L word.name line) : isFinalLine L line = true := by
  refine isFinalLine_of_begins h ?_
  cases word with
  | ok => exact .inl rfl
  | no => exact .inr rfl
  | bye => exact absurd rfl hword

/-- What stands in the error of a final line is the line. -/
theorem finalResult_replied {before b : String} {value : α} {line reply : Text}
    (h : finalResult L before value line = .error (.replied b reply)) : reply = line := by
  rw [finalResult] at h
  split at h
  · cases h
    rfl
  · cases h

/-- No loop that ends on final lines reports `BYE`. -/
theorem not_reports_bye {result : Except Fault α}
    (h : ∀ before reply, result = .error (.replied before reply) → isFinalLine L reply = true) :
    ¬Reports L .bye (result.map fun _ => ()) := by
  rintro ⟨before, reply, hresult, hbye⟩
  cases result with
  | ok value => cases hresult
  | error fault =>
    cases hresult
    have hfinal := not_bye_of_isFinalLine (h before reply rfl)
    rw [show "BYE".toList = StatusWord.bye.name from rfl, hbye] at hfinal
    cases hfinal

/-! ## Data and a status -/

/-- The lines of some rows, with their carriage returns. -/
def rawLines (rows : List Row) : List Octets := rows.flatMap fun row => pieces (row.body ++ [13])

theorem octets_rows (rows : List Row) : rows.flatMap Row.octets = unlines (rawLines rows) := by
  induction rows with
  | nil => rfl
  | cons row rows ih =>
    rw [rawLines, List.flatMap_cons, List.flatMap_cons, unlines_append, ← rawLines, ← ih,
      unlines_pieces, Row.octets, lineEnd]
    simp only [List.append_assoc, List.cons_append, List.nil_append]

theorem not_mem_rawLines {rows : List Row} {line : Octets} (h : line ∈ rawLines rows) :
    10 ∉ line := by
  obtain ⟨row, -, hline⟩ := List.mem_flatMap.mp h
  exact not_mem_pieces hline

/-- The rows have no final line, or one after some others and before what is left. -/
theorem rawLines_cases (rows : List Row) :
    ((∀ line ∈ rawLines rows, isFinalLine L (trimmed (dropCR line)) = false) ∧
      ∀ row ∈ rows, ∀ line ∈ row.lines, isFinalLine L (trimmed line) = false) ∨
    ∃ pre line post, rawLines rows = pre ++ line :: post ∧
      (∀ l ∈ pre, isFinalLine L (trimmed (dropCR l)) = false) ∧
      isFinalLine L (trimmed (dropCR line)) = true ∧
      ¬∀ row ∈ rows, ∀ line ∈ row.lines, isFinalLine L (trimmed line) = false := by
  cases hfind : (rawLines rows).find? fun line => isFinalLine L (trimmed (dropCR line)) with
  | none =>
    have hall : ∀ line ∈ rawLines rows, isFinalLine L (trimmed (dropCR line)) = false :=
      fun line hline => Bool.eq_false_iff.mpr (List.find?_eq_none.mp hfind line hline)
    refine .inl ⟨hall, fun row hrow line hline => ?_⟩
    obtain ⟨raw, hraw, rfl⟩ := List.mem_map.mp hline
    exact hall raw (List.mem_flatMap.mpr ⟨row, hrow, hraw⟩)
  | some line =>
    obtain ⟨hline, pre, post, hlines, hpre⟩ := List.find?_eq_some_iff_append.mp hfind
    refine .inr ⟨pre, line, post, hlines, fun l hl => by simpa using hpre l hl, hline, fun hall => ?_⟩
    have hmem : line ∈ rawLines rows := by
      rw [hlines]
      exact List.mem_append_right _ List.mem_cons_self
    obtain ⟨row, hrow, hraw⟩ := List.mem_flatMap.mp hmem
    rw [hall row hrow _ (List.mem_map_of_mem hraw)] at hline
    cases hline

/-- What the client is handed of the lines before a final one. -/
def dataLines (lines : List Octets) : List Text :=
  (lines.map fun line => trimmed (dropCR line)).filter (· ≠ [])

/-- Lines of data are read over. -/
theorem untilFinal_pass (readErr : String) (n : Nat) (acc : List Text) (rest : Octets)
    (coming : List Octets) {lines : List Octets} (hfree : ∀ line ∈ lines, 10 ∉ line)
    (hdata : ∀ line ∈ lines, isFinalLine L (trimmed (dropCR line)) = false) :
    eachLine readErr (onUntilFinal L) (lines.length + n) acc ⟨unlines lines ++ rest, coming⟩ =
      eachLine readErr (onUntilFinal L) n (acc ++ dataLines lines) ⟨rest, coming⟩ := by
  induction lines generalizing acc with
  | nil =>
    rw [List.length_nil, Nat.zero_add, dataLines, List.map_nil, List.filter_nil, List.append_nil]
    rfl
  | cons line lines ih =>
    obtain ⟨hline, hfree⟩ := List.forall_mem_cons.mp hfree
    obtain ⟨hfinal, hdata⟩ := List.forall_mem_cons.mp hdata
    have hoctets : unlines (line :: lines) ++ rest = line ++ 10 :: (unlines lines ++ rest) := by
      rw [unlines, List.flatMap_cons, ← unlines]
      simp
    rw [List.length_cons, Nat.add_right_comm, hoctets, dataLines, List.map_cons]
    by_cases hblank : trimmed (dropCR line) = []
    · rw [eachLine_blank hline hblank, List.filter_cons_of_neg (by simpa using hblank)]
      exact ih _ hfree hdata
    · have hbody : onUntilFinal L (trimmed (dropCR line)) acc ⟨unlines lines ++ rest, coming⟩ =
          (⟨unlines lines ++ rest, coming⟩, .inl (acc ++ [trimmed (dropCR line)])) := by
        rw [onUntilFinal, hfinal]
        rfl
      have hacc := ih (acc ++ [trimmed (dropCR line)]) hfree hdata
      rw [List.append_assoc] at hacc
      rw [eachLine_next hline hblank hbody, List.filter_cons_of_pos (by simpa using hblank)]
      exact hacc

/-- A final line ends the reading. -/
theorem untilFinal_last {readErr : String} {n : Nat} {acc : List Text} {rest : Octets}
    {coming : List Octets} {line : Octets} (hfree : 10 ∉ line)
    (hfinal : isFinalLine L (trimmed (dropCR line)) = true) :
    eachLine readErr (onUntilFinal L) (n + 1) acc ⟨line ++ 10 :: rest, coming⟩ =
      (⟨rest, coming⟩, finalResult L "server replied: " acc (trimmed (dropCR line))) := by
  refine eachLine_last hfree ?_ ?_
  · intro hnil
    rw [hnil] at hfinal
    obtain ⟨c, t, h, -⟩ := head_of_isFinalLine hfinal
    cases h
  · rw [onUntilFinal, hfinal]
    rfl

/-- There are turns enough for every line. -/
theorem enough_turns (lines : List Octets) (t : Octets) (coming : List Octets) :
    ∃ m, (Link.mk (unlines lines ++ t) coming).size + 1 = lines.length + (m + 1) := by
  have hle := length_le_unlines lines
  refine ⟨(Link.mk (unlines lines ++ t) coming).size - lines.length, ?_⟩
  rw [Link.size, List.length_append]
  omega

/-- The first final line ends the reading, with the data before it read over. -/
theorem readUntilFinal_eq (rest : Octets) (coming : List Octets) {lines : List Octets}
    (hfree : ∀ line ∈ lines, 10 ∉ line)
    (hdata : ∀ line ∈ lines, isFinalLine L (trimmed (dropCR line)) = false)
    {line : Octets} (hline : 10 ∉ line) (hfinal : isFinalLine L (trimmed (dropCR line)) = true) :
    (Link.mk (unlines lines ++ (line ++ 10 :: rest)) coming).readUntilFinal L =
      (⟨rest, coming⟩,
        finalResult L "server replied: " (dataLines lines) (trimmed (dropCR line))) := by
  obtain ⟨m, hm⟩ := enough_turns lines (line ++ 10 :: rest) coming
  rw [Link.readUntilFinal, hm, untilFinal_pass "sieve read failed: " (m + 1) []
    (line ++ 10 :: rest) coming hfree hdata, List.nil_append]
  exact untilFinal_last hline hfinal

/-- What `readUntilFinal` hands on of a server's line is a final line. -/
theorem untilFinal_replied {k : Link} {before : String} {reply : Text}
    (h : (k.readUntilFinal L).2 = .error (.replied before reply)) : isFinalLine L reply = true := by
  refine eachLine_replied (p := fun reply => isFinalLine L reply = true) ?_ _ _ _ _ _ h
  intro line lines k k' before reply hbody
  rw [onUntilFinal] at hbody
  split at hbody
  · rename_i hfinal
    have hresult := Sum.inr.inj (Prod.ext_iff.mp hbody).2
    rw [finalResult_replied hresult]
    exact hfinal
  · cases (Prod.ext_iff.mp hbody).2

/-- **Data and a status** are read up to the end, and the status is reported, exactly when
no line of the data looks final and the status is in one line, and not `BYE`. -/
theorem readUntilFinal_iff (hL : UpperASCII L) (rows : List Row) {st : Status} (h : st.Conforms) :
    (((Link.mk (rows.flatMap Row.octets ++ st.octets) []).readUntilFinal L).1 = ⟨[], []⟩ ∧
      Reports L st.word (((Link.mk (rows.flatMap Row.octets ++ st.octets) []).readUntilFinal L).2.map
        fun _ => ())) ↔
    st.NoLiteral ∧ st.word ≠ .bye ∧
      ∀ row ∈ rows, ∀ line ∈ row.lines, isFinalLine L (trimmed line) = false := by
  by_cases hbye : st.word = .bye
  · refine iff_of_false (fun hexact => ?_) fun hplain => hplain.2.1 hbye
    have hreports := hexact.2
    rw [hbye] at hreports
    exact not_reports_bye (fun _ _ => untilFinal_replied) hreports
  obtain ⟨line, rest, hoctets, hfree, hrest, hbegins⟩ := status_line hL h
  have hfinal := name_final hbye hbegins
  rw [octets_rows, hoctets]
  obtain ⟨hdata, hplain⟩ | ⟨pre, l, post, hraw, hpre, hl, hnot⟩ := rawLines_cases (L := L) rows
  · rw [readUntilFinal_eq rest [] (fun _ => not_mem_rawLines) hdata hfree hfinal]
    constructor
    · rintro ⟨hlink, -⟩
      exact ⟨hrest.mp (Link.mk.inj hlink).1, hbye, hplain⟩
    · rintro ⟨hlit, -, -⟩
      rw [hrest.mpr hlit]
      exact ⟨rfl, reports_final hbye hbegins⟩
  · -- a line of the data ends the reading, and the status is left
    have hl10 : 10 ∉ l := @not_mem_rawLines rows _ (by rw [hraw]; simp)
    have hpre10 : ∀ l ∈ pre, 10 ∉ l :=
      fun l hl => @not_mem_rawLines rows _ (by rw [hraw]; simp [hl])
    have hstream : unlines (rawLines rows) ++ (line ++ 10 :: rest) =
        unlines pre ++ (l ++ 10 :: (unlines post ++ (line ++ 10 :: rest))) := by
      rw [hraw, unlines_append, unlines, unlines, List.flatMap_cons]
      simp [unlines]
    rw [hstream, readUntilFinal_eq (unlines post ++ (line ++ 10 :: rest)) [] hpre10 hpre hl10 hl]
    refine iff_of_false (fun hexact => ?_) fun hplain => hnot hplain.2.2
    have hnil := (Link.mk.inj hexact.1).1
    simp at hnil

/-! ## A script -/

/-- What the client sees of a line with something in front that is not blank. -/
theorem trimmed_cons {b : UInt8} (hb : b < 0x80) (hspace : isSpace (Char.ofNat b.toNat) = false)
    (s : Octets) : ∃ t, trimmed (b :: s) = Char.ofNat b.toNat :: t := by
  have happ := trimmed_append (s := [b]) (by simp [hb]) (List.cons_ne_nil _ _) (by simp [hspace])
    (by simp [hspace]) s
  exact ⟨_, happ⟩

/-- A line with a quote or a brace in front is not final. -/
theorem not_final_of_head (hL : UpperASCII L) {c : Char} (hc : c = '"' ∨ c = '{' ∨ c = '+')
    (t : Text) : isFinalLine L (c :: t) = false := by
  rw [Bool.eq_false_iff]
  intro hfinal
  obtain ⟨d, u, hupper, hd, -⟩ := head_of_isFinalLine hfinal
  have hhead : L.toUpper c = c := by obtain rfl | rfl | rfl := hc <;> exact hL _ (by decide)
  rw [toUpper, List.map_cons, hhead] at hupper
  rw [(List.cons.inj hupper).1] at hc
  obtain rfl | rfl | rfl := hd <;> revert hc <;> decide

/-- The line that announces a literal. -/
def header (n : Nat) : Octets := 123 :: decimal n ++ [125]

theorem digit_ascii {n : Nat} {b : UInt8} (h : b ∈ decimal n) :
    b < 0x80 ∧ b ≠ 10 ∧ b ≠ 13 ∧ isSpace (Char.ofNat b.toNat) = false := by
  have hdigit := isDecimalDigit_decimal h
  rw [isDecimalDigit, Bool.and_eq_true, decide_eq_true_iff, decide_eq_true_iff,
    UInt8.le_iff_toNat_le, UInt8.le_iff_toNat_le] at hdigit
  have hall : ∀ n < 58, 48 ≤ n → UInt8.ofNat n < 0x80 ∧ UInt8.ofNat n ≠ 10 ∧ UInt8.ofNat n ≠ 13 ∧
      isSpace (Char.ofNat (UInt8.ofNat n).toNat) = false := by decide
  have hb := hall b.toNat (Nat.lt_succ_of_le hdigit.2) hdigit.1
  rwa [UInt8.ofNat_toNat] at hb

theorem header_ascii {n : Nat} {b : UInt8} (h : b ∈ header n) : b < 0x80 ∧ b ≠ 10 := by
  rw [header, List.mem_append, List.mem_cons, List.mem_singleton] at h
  obtain (rfl | h) | rfl := h
  · decide
  · exact ⟨(digit_ascii h).1, (digit_ascii h).2.1⟩
  · decide

/-- The text of a number. -/
def digits (n : Nat) : Text := (decimal n).map fun b => Char.ofNat b.toNat

/-- A line in braces as the client sees it. -/
theorem trimmed_braces {s : Octets} (hs : ∀ b ∈ s, b < 0x80) :
    trimmed (123 :: s ++ [125]) = '{' :: s.map (fun b => Char.ofNat b.toNat) ++ ['}'] := by
  have happ := trimmed_append (s := 123 :: s ++ [125])
    (by
      intro b hb
      rw [List.mem_append, List.mem_cons, List.mem_singleton] at hb
      obtain (rfl | hb) | rfl := hb
      · decide
      · exact hs b hb
      · decide)
    (List.cons_ne_nil _ _)
    (by
      intro b hb
      cases hb
      decide)
    (by
      intro b hb
      rw [List.getLast?_concat] at hb
      cases hb
      decide) []
  rw [List.append_nil, decode_nil, List.reverse_nil, List.dropWhile_nil, List.reverse_nil,
    List.append_nil] at happ
  rw [happ, List.map_append]
  rfl

/-- The header as the client sees it. -/
theorem trimmed_header (n : Nat) : trimmed (header n) = '{' :: digits n ++ ['}'] :=
  trimmed_braces fun _ hb => (digit_ascii hb).1

theorem trimSuffix_of_last {d c : Char} (h : c ≠ d) (s : Text) :
    trimSuffix [d] (s ++ [c]) = s ++ [c] := by
  rw [trimSuffix, if_neg]
  rw [List.isSuffixOf_iff_suffix, List.suffix_iff_eq_drop]
  simp [h.symm]

theorem digit_char {n : Nat} {c : Char} (h : c ∈ digits n) :
    isSpace c = false ∧ c ≠ '+' ∧ c ≠ '-' := by
  obtain ⟨b, hb, rfl⟩ := List.mem_map.mp h
  have hdigit := isDecimalDigit_decimal hb
  rw [isDecimalDigit, Bool.and_eq_true, decide_eq_true_iff, decide_eq_true_iff,
    UInt8.le_iff_toNat_le, UInt8.le_iff_toNat_le] at hdigit
  have hall : ∀ n < 58, 48 ≤ n → isSpace (Char.ofNat n) = false ∧ Char.ofNat n ≠ '+' ∧
      Char.ofNat n ≠ '-' := by decide
  exact hall b.toNat (Nat.lt_succ_of_le hdigit.2) hdigit.1

theorem digitOctets_digits (n : Nat) : digitOctets (digits n) = decimal n := by
  rw [digitOctets, digits, List.map_map]
  refine (List.map_congr_left fun b hb => ?_).trans (List.map_id _)
  have hall : ∀ n < 0x80, (Char.ofNat n).toNat = n := by decide
  have hlt : b.toNat < 0x80 := (digit_ascii hb).1
  rw [Function.comp_apply, hall b.toNat hlt, if_pos hlt]
  exact UInt8.ofNat_toNat

theorem digits_ne_nil (n : Nat) : digits n ≠ [] := mt List.map_eq_nil_iff.mp (decimal_ne_nil n)

/-- The length in a header is read as it was written. -/
theorem atoi_digits {n : Nat} (h : n < 2 ^ 32) : atoi (trimSpace (digits n)) = some (n : Int) := by
  have htrim : trimSpace (digits n) = digits n := by
    have happ := trimBy_append (p := isSpace) (digits_ne_nil n)
      (fun c hc => (digit_char (List.mem_of_mem_head? hc)).1)
      (fun c hc => (digit_char (List.mem_of_mem_getLast? hc)).1) []
    rwa [List.reverse_nil, List.dropWhile_nil, List.reverse_nil, List.append_nil] at happ
  have hparse : parseDecimal (digitOctets (digits n)) = some n := by
    rw [digitOctets_digits, parseDecimal_decimal]
  rw [htrim]
  unfold atoi
  cases hdigits : digits n with
  | nil => exact absurd hdigits (digits_ne_nil n)
  | cons c t =>
    obtain ⟨-, hplus, hminus⟩ := digit_char (n := n) (c := c) (by rw [hdigits]; exact List.mem_cons_self)
    rw [hdigits] at hparse
    split
    · rename_i heq
      exact absurd (List.cons.inj heq).1 hminus
    · rename_i heq
      exact absurd (List.cons.inj heq).1 hplus
    · rw [hparse, Option.map_some, Option.filter_some_pos]
      · rfl
      · rw [decide_eq_true_iff, Int.ofNat_eq_natCast]
        omega

theorem literalInner_braces (s : Text) :
    literalInner ('{' :: s ++ ['}']) = some (trimSuffix ['+'] s) := by
  have hfront : ['{'].isPrefixOf ('{' :: s ++ ['}']) = true :=
    List.isPrefixOf_iff_prefix.mpr ⟨s ++ ['}'], rfl⟩
  have hback : ['}'].isSuffixOf ('{' :: s ++ ['}']) = true :=
    List.isSuffixOf_iff_suffix.mpr (List.suffix_append _ _)
  have hinner : ('{' :: s ++ ['}']).tail.dropLast = s := List.dropLast_concat
  rw [literalInner, hfront, hback, hinner]
  rfl

theorem literalInner_header (n : Nat) : literalInner (trimmed (header n)) = some (digits n) := by
  have hlast := List.dropLast_append_getLast (digits_ne_nil n)
  rw [trimmed_header, literalInner_braces, ← hlast,
    trimSuffix_of_last (digit_char (List.getLast_mem (digits_ne_nil n))).2.1]

theorem literalInner_of_final (hL : UpperASCII L) {line : Text} (h : isFinalLine L line = true) :
    literalInner line = none := by
  rw [literalInner, if_neg]
  intro hbraces
  obtain ⟨t, rfl⟩ := List.isPrefixOf_iff_prefix.mp (Bool.and_eq_true_iff.mp hbraces).1
  rw [List.singleton_append, not_final_of_head hL (.inr (.inl rfl))] at h
  cases h

/-- **A script** is read over, in quotes or by its length. -/
theorem script_pass (hL : UpperASCII L) (readErr : String) {s : Str} (hs : s.Conforms)
    (buf rest : Octets) (coming : List Octets) :
    ∃ used ≤ (Row.single s).octets.length, ∃ buf', ∀ n,
      eachLine readErr (onScript L) (used + n) buf ⟨(Row.single s).octets ++ rest, coming⟩ =
        eachLine readErr (onScript L) n buf' ⟨rest, coming⟩ := by
  cases s with
  | quoted s =>
    have hfree : 10 ∉ (Str.quoted s).octets := fun hmem => (mem_octets_str hs).mp hmem
    have hline : 10 ∉ (Str.quoted s).octets ++ [13] := by simp [hfree]
    obtain ⟨t, ht⟩ := trimmed_cons (b := 34) (by decide) (by decide) (escapeQuoted s ++ [34])
    refine ⟨1, by simp [Row.octets, lineEnd], buf, fun n => ?_⟩
    have hoctets : (Row.single (.quoted s)).octets ++ rest =
        (Str.quoted s).octets ++ [13] ++ 10 :: rest := by
      simp [Row.octets, Row.body, lineEnd]
    have htrim : trimmed (dropCR ((Str.quoted s).octets ++ [13])) = '"' :: t := by
      rw [dropCR_append]
      exact ht
    rw [hoctets, Nat.add_comm, eachLine_next hline]
    · rw [htrim]
      exact List.cons_ne_nil _ _
    · rw [htrim, onScript, not_final_of_head hL (.inl rfl)]
      rfl
  | literal s =>
    have hline : 10 ∉ header s.length ++ [13] := by
      intro hmem
      obtain hmem | hmem := List.mem_append.mp hmem
      · exact (header_ascii hmem).2 rfl
      · cases List.mem_singleton.mp hmem
    have hoctets : (Row.single (.literal s)).octets ++ rest =
        header s.length ++ [13] ++ 10 :: (s ++ ([13] ++ 10 :: rest)) := by
      simp [Row.octets, Row.body, Str.octets, header, lineEnd]
    have hbody : onScript L (trimmed (dropCR (header s.length ++ [13]))) buf
        ⟨s ++ ([13] ++ 10 :: rest), coming⟩ = (⟨[13] ++ 10 :: rest, coming⟩, .inl (buf ++ s)) := by
      rw [dropCR_append, onScript, literalInner_header]
      dsimp only
      rw [atoi_digits hs]
      dsimp only
      by_cases hzero : s = []
      · rw [hzero]
        simp
      · have hlength : ¬(s.length : Int) = 0 := by
          have := List.length_pos_iff.mpr hzero
          omega
        have hsmall : s.length ≤ maxAlloc := Nat.le_trans (Nat.le_of_lt hs) (by simp [maxAlloc])
        rw [if_neg hlength, readLiteral, if_neg (by omega), if_neg (by simp)]
        simp
    refine ⟨2, by simp [Row.octets, lineEnd], buf ++ s, fun n => ?_⟩
    have htwo : 2 + n = n + 1 + 1 := by omega
    rw [hoctets, htwo, eachLine_next hline _ hbody, eachLine_blank (by decide) rfl]
    rw [dropCR_append, trimmed_header]
    exact List.cons_ne_nil _ _

/-- A final line ends the reading of a script. -/
theorem script_last (hL : UpperASCII L) {readErr : String} {n : Nat} {buf rest : Octets}
    {coming : List Octets} {line : Octets} (hfree : 10 ∉ line)
    (hfinal : isFinalLine L (trimmed (dropCR line)) = true) :
    eachLine readErr (onScript L) (n + 1) buf ⟨line ++ 10 :: rest, coming⟩ =
      (⟨rest, coming⟩, finalResult L (scriptErr (trimmed (dropCR line))) buf (trimmed (dropCR line))) := by
  refine eachLine_last hfree ?_ ?_
  · intro hnil
    rw [hnil] at hfinal
    obtain ⟨c, t, h, -⟩ := head_of_isFinalLine hfinal
    cases h
  · rw [onScript, literalInner_of_final hL hfinal, hfinal]
    rfl

theorem script_replied {readErr : String} {n : Nat} {buf : Octets} {k : Link} {before : String}
    {reply : Text} (h : (eachLine readErr (onScript L) n buf k).2 = .error (.replied before reply)) :
    isFinalLine L reply = true := by
  refine eachLine_replied (p := fun reply => isFinalLine L reply = true) ?_ _ _ _ _ _ h
  intro line buf k k' before reply hbody
  rw [onScript] at hbody
  split at hbody
  · split at hbody
    · cases (Prod.ext_iff.mp hbody).2
    · rw [readLiteral] at hbody
      split at hbody
      · cases (Prod.ext_iff.mp hbody).2
      · split at hbody
        · cases (Prod.ext_iff.mp hbody).2
        · split at hbody
          · cases (Prod.ext_iff.mp hbody).2
          · cases (Prod.ext_iff.mp hbody).2
  · split at hbody
    · rename_i hfinal
      have hresult := Sum.inr.inj (Prod.ext_iff.mp hbody).2
      rw [finalResult_replied hresult]
      exact hfinal
    · cases (Prod.ext_iff.mp hbody).2

/-- **A script and a status** are read up to the end, and the status is reported, exactly when
the status is in one line, and not `BYE`. -/
theorem getScript_iff (hL : UpperASCII L) {name : Text} (hname : name ≠ []) {rows : List Row}
    {st : Status} (h : st.Conforms)
    (hrows : rows = [] ∨ ∃ script : Str, script.Conforms ∧ rows = [.single script]) :
    (((Link.mk [] [rows.flatMap Row.octets ++ st.octets]).getScript L name).1 = ⟨[], []⟩ ∧
      Reports L st.word (((Link.mk [] [rows.flatMap Row.octets ++ st.octets]).getScript L name).2.map
        fun _ => ())) ↔
    st.NoLiteral ∧ st.word ≠ .bye := by
  rw [Link.getScript, if_neg hname]
  by_cases hbye : st.word = .bye
  · refine iff_of_false (fun hexact => ?_) fun hplain => hplain.2 hbye
    have hreports := hexact.2
    rw [hbye] at hreports
    exact not_reports_bye (fun _ _ => script_replied) hreports
  obtain ⟨line, rest, hoctets, hfree, hrest, hbegins⟩ := status_line hL h
  have hfinal := name_final hbye hbegins
  obtain ⟨buf, hread⟩ : ∃ buf, eachLine "GETSCRIPT read failed: " (onScript L)
      ((Link.mk [] [rows.flatMap Row.octets ++ st.octets]).turn.size + 1) []
      (Link.mk [] [rows.flatMap Row.octets ++ st.octets]).turn =
      (⟨rest, []⟩, finalResult L (scriptErr (trimmed (dropCR line))) buf (trimmed (dropCR line))) := by
    obtain rfl | ⟨script, hscript, rfl⟩ := hrows
    · refine ⟨[], ?_⟩
      rw [hoctets]
      exact script_last hL hfree hfinal
    · obtain ⟨used, hused, buf, hpass⟩ := script_pass hL "GETSCRIPT read failed: " hscript []
        (line ++ 10 :: rest) []
      have hturn : (Link.mk [] [[Row.single script].flatMap Row.octets ++ st.octets]).turn =
          ⟨(Row.single script).octets ++ (line ++ 10 :: rest), []⟩ := by
        simp [Link.turn, hoctets]
      obtain ⟨m, hm⟩ : ∃ m, (Link.mk ((Row.single script).octets ++ (line ++ 10 :: rest)) []).size + 1 =
          used + (m + 1) := by
        refine ⟨(Link.mk ((Row.single script).octets ++ (line ++ 10 :: rest)) []).size - used, ?_⟩
        rw [Link.size, List.length_append]
        omega
      rw [hturn, hm, hpass]
      exact ⟨buf, script_last hL hfree hfinal⟩
  rw [hread]
  constructor
  · rintro ⟨hlink, -⟩
    exact ⟨hrest.mp (Link.mk.inj hlink).1, hbye⟩
  · rintro ⟨hlit, -⟩
    rw [hrest.mpr hlit]
    exact ⟨rfl, reports_final hbye hbegins⟩

/-! ## STARTTLS -/

/-- STARTTLS reports every status, and reads all of it exactly when it is in one line. -/
theorem startTLS_iff (hL : UpperASCII L) {st : Status} (h : st.Conforms) :
    (((Link.mk [] [st.octets]).startTLS L).1 = ⟨[], []⟩ ∧
      Reports L st.word ((Link.mk [] [st.octets]).startTLS L).2) ↔ st.NoLiteral := by
  obtain ⟨line, rest, hoctets, hfree, hrest, hbegins⟩ := status_line hL h
  have hturn : (Link.mk [] [st.octets]).turn = ⟨line ++ 10 :: rest, []⟩ := by
    simp [Link.turn, hoctets]
  rw [Link.startTLS, hturn]
  dsimp only
  rw [readLine_line hfree]
  have hreports : Reports L st.word
      (if "OK".toList.isPrefixOf (toUpper L (trimmed (dropCR line))) then .ok ()
        else .error (.replied "STARTTLS rejected: " (trimmed (dropCR line)))) := by
    have hprefix := hbegins.isPrefixOf
    cases hword : st.word with
    | ok =>
      rw [hword] at hprefix
      exact if_pos hprefix
    | no | bye =>
      rw [hword] at hprefix
      rw [if_neg]
      · exact ⟨_, _, rfl, hprefix⟩
      · intro hok
        obtain ⟨t, ht⟩ := List.isPrefixOf_iff_prefix.mp hprefix
        rw [← ht] at hok
        cases hok
  constructor
  · rintro ⟨hlink, -⟩
    exact hrest.mp (Link.mk.inj hlink).1
  · intro hlit
    rw [hrest.mpr hlit]
    exact ⟨rfl, hreports⟩

/-! ## Challenges -/

section Challenges

variable {more : Nat → Bool} {readErr : String}

/-- Without a plus sign in front of a line the server is not answered. -/
theorem auth_silent (n step : Nat) (coming : List Octets) {lines : List Octets}
    (hfree : ∀ line ∈ lines, 10 ∉ line)
    (hplus : ∀ line ∈ lines, '+' ∉ (trimmed (dropCR line)).head?) :
    (eachLine readErr (onAuth L more) n step ⟨unlines lines, coming⟩).1.coming = coming := by
  induction lines generalizing n with
  | nil =>
    rw [unlines, List.flatMap_nil, eachLine_end]
  | cons line lines ih =>
    obtain ⟨hline, hfree⟩ := List.forall_mem_cons.mp hfree
    obtain ⟨hhead, hplus⟩ := List.forall_mem_cons.mp hplus
    have hoctets : unlines (line :: lines) = line ++ 10 :: unlines lines := by
      rw [unlines, List.flatMap_cons, ← unlines]
      simp
    cases n with
    | zero => rfl
    | succ n =>
      rw [hoctets]
      by_cases hblank : trimmed (dropCR line) = []
      · rw [eachLine_blank hline hblank]
        exact ih n hfree hplus
      · have hnot : ¬['+'].isPrefixOf (trimmed (dropCR line)) = true := by
          intro hprefix
          obtain ⟨t, ht⟩ := List.isPrefixOf_iff_prefix.mp hprefix
          rw [← ht] at hhead
          exact hhead rfl
        cases hfinal : isFinalLine L (trimmed (dropCR line)) with
        | true =>
          rw [eachLine_last hline hblank (by rw [onAuth, if_neg hnot, hfinal]; rfl)]
        | false =>
          rw [eachLine_next hline hblank (by rw [onAuth, if_neg hnot, hfinal]; rfl)]
          exact ih n hfree hplus

theorem base64_char {b : UInt8} (h : isBase64 b = true) :
    b < 0x80 ∧ b ≠ 10 ∧ isSpace (Char.ofNat b.toNat) = false ∧ (Char.ofNat b.toNat = '+' → b = 43) := by
  have hlt : b < 0x80 := by
    simp only [isBase64, Bool.or_eq_true, Bool.and_eq_true, decide_eq_true_eq, beq_iff_eq,
      UInt8.le_iff_toNat_le, ← UInt8.toNat_inj] at h
    rw [UInt8.lt_iff_toNat_lt]
    simp at h ⊢
    omega
  have hall : ∀ n < 0x80, isBase64 (UInt8.ofNat n) = true → n ≠ 10 ∧
      isSpace (Char.ofNat n) = false ∧ (Char.ofNat n = '+' → n = 43) := by decide
  rw [← UInt8.ofNat_toNat (x := b)] at h
  obtain ⟨hne, hspace, hplus⟩ := hall b.toNat hlt h
  exact ⟨hlt, fun hb => hne (by rw [hb]; rfl), hspace,
    fun hb => UInt8.toNat_inj.mp (hplus hb)⟩

/-- The lines of a challenge, with their carriage returns. -/
theorem challenge_lines {s : Str} (hs : s.Conforms) (hcontent : ∀ b ∈ s.content, isBase64 b) :
    (∃ t, s = .quoted t ∧ pieces ((Row.single s).body ++ [13]) = [s.octets ++ [13]]) ∨
    ∃ data, s = .literal data ∧
      pieces ((Row.single s).body ++ [13]) = [header data.length ++ [13], data ++ [13]] := by
  cases s with
  | quoted t =>
    have hfree : 10 ∉ (Str.quoted t).octets ++ [13] := by
      have hbody : 10 ∉ (Str.quoted t).octets := fun hmem => (mem_octets_str hs).mp hmem
      simp [hbody]
    exact .inl ⟨t, rfl, pieces_of_not_mem hfree⟩
  | literal data =>
    refine .inr ⟨data, rfl, ?_⟩
    have hheader : 10 ∉ header data.length ++ [13] := by
      intro hmem
      obtain hmem | hmem := List.mem_append.mp hmem
      · exact (header_ascii hmem).2 rfl
      · cases List.mem_singleton.mp hmem
    have hdata : 10 ∉ data ++ [13] := by
      intro hmem
      obtain hmem | hmem := List.mem_append.mp hmem
      · exact (base64_char (hcontent _ hmem)).2.1 rfl
      · cases List.mem_singleton.mp hmem
    have hoctets : (Row.single (.literal data)).body ++ [13] =
        (header data.length ++ [13]) ++ 10 :: (data ++ [13]) := by
      simp [Row.body, Str.octets, header, lineEnd]
    rw [hoctets, pieces_append, pieces_of_not_mem hheader, pieces_of_not_mem hdata]
    rfl

theorem octets_row (row : Row) : row.octets = unlines (pieces (row.body ++ [13])) := by
  rw [unlines_pieces, Row.octets, lineEnd]
  simp

/-- A challenge without a plus sign in a literal has no line with one in front. -/
theorem unanswered_lines {row : Row} (h : row.IsChallenge) (hnot : ¬row.Answered) :
    ∀ line ∈ pieces (row.body ++ [13]), '+' ∉ (trimmed (dropCR line)).head? := by
  obtain ⟨s, rfl, hs, hcontent⟩ := h
  obtain ⟨t, rfl, hlines⟩ | ⟨data, rfl, hlines⟩ := challenge_lines hs hcontent
  · rw [hlines]
    intro line hline
    obtain ⟨u, hu⟩ := trimmed_cons (b := 34) (by decide) (by decide) (escapeQuoted t ++ [34])
    rw [List.mem_singleton.mp hline, dropCR_append, Str.octets]
    rw [List.cons_append, hu]
    exact fun hplus => absurd (Option.some.inj hplus) (by decide)
  · rw [hlines]
    intro line hline
    obtain rfl | hline := List.mem_cons.mp hline
    · rw [dropCR_append, trimmed_header]
      exact fun hplus => absurd (Option.some.inj hplus) (by decide)
    · rw [List.mem_singleton.mp hline, dropCR_append]
      cases data with
      | nil => exact fun hplus => by cases hplus
      | cons b data =>
        obtain ⟨hascii, -, hspace, hplus⟩ := base64_char (hcontent b List.mem_cons_self)
        obtain ⟨u, hu⟩ := trimmed_cons hascii hspace data
        rw [hu]
        intro hhead
        refine hnot ⟨data, ?_⟩
        rw [hplus (Option.some.inj hhead)]

/-- **A challenge is answered** when a literal with a plus sign carries it. -/
theorem auth_answered (hL : UpperASCII L) {row : Row} (h : row.IsChallenge) (hrow : row.Answered)
    (n step : Nat) (chunks : List Octets) :
    eachLine readErr (onAuth L more) (2 + n) step (Link.mk [] (row.octets :: chunks)).turn =
      if more step then eachLine readErr (onAuth L more) n (step + 1) (Link.mk [] chunks).turn
      else (⟨[], chunks⟩, .error .challengeCount) := by
  obtain ⟨data, rfl⟩ := hrow
  obtain ⟨s, heq, hs, hcontent⟩ := h
  cases heq
  obtain ⟨t, heq, -⟩ | ⟨data', heq, hlines⟩ := challenge_lines hs hcontent
  · cases heq
  cases heq
  have hfree : ∀ line ∈ pieces ((Row.single (.literal (43 :: data))).body ++ [13]), 10 ∉ line :=
    fun line hline => not_mem_pieces hline
  rw [hlines] at hfree
  obtain ⟨hheader, hfree⟩ := List.forall_mem_cons.mp hfree
  have hdata := hfree _ List.mem_cons_self
  have hturn : (Link.mk [] ((Row.single (.literal (43 :: data))).octets :: chunks)).turn =
      ⟨header (43 :: data).length ++ [13] ++ 10 :: (43 :: data ++ [13] ++ 10 :: []), chunks⟩ := by
    rw [octets_row, hlines]
    simp [Link.turn, unlines]
  obtain ⟨u, hu⟩ := trimmed_cons (b := 43) (by decide) (by decide) data
  have htrim : trimmed (dropCR (43 :: data ++ [13])) = '+' :: u := by
    rw [dropCR_append]
    exact hu
  have hnil : trimmed (dropCR (43 :: data ++ [13])) ≠ [] := by
    rw [htrim]
    exact List.cons_ne_nil _ _
  have htwo : 2 + n = n + 1 + 1 := by omega
  rw [hturn, htwo, eachLine_next hheader]
  rotate_left
  · rw [dropCR_append, trimmed_header]
    exact List.cons_ne_nil _ _
  · rw [dropCR_append, trimmed_header, onAuth, List.cons_append,
      not_final_of_head hL (.inr (.inl rfl))]
    rfl
  cases hmore : more step with
  | true =>
    rw [eachLine_next hdata hnil (by rw [htrim, onAuth, hmore]; rfl)]
    rfl
  | false =>
    rw [eachLine_last hdata hnil (by rw [htrim, onAuth, hmore]; rfl)]
    rfl

theorem auth_replied {n step : Nat} {k : Link} {before : String} {reply : Text}
    (h : (eachLine readErr (onAuth L more) n step k).2 = .error (.replied before reply)) :
    isFinalLine L reply = true := by
  refine eachLine_replied (p := fun reply => isFinalLine L reply = true) ?_ _ _ _ _ _ h
  intro line step k k' before reply hbody
  rw [onAuth] at hbody
  split at hbody
  · split at hbody
    · cases (Prod.ext_iff.mp hbody).2
    · cases (Prod.ext_iff.mp hbody).2
  · split at hbody
    · rename_i hfinal
      have hresult := Sum.inr.inj (Prod.ext_iff.mp hbody).2
      rw [finalResult_replied hresult]
      exact hfinal
    · cases (Prod.ext_iff.mp hbody).2

/-- The final line ends an authentication. -/
theorem auth_last (hL : UpperASCII L) {n step : Nat} {rest : Octets} {coming : List Octets}
    {line : Octets} (hfree : 10 ∉ line) (hfinal : isFinalLine L (trimmed (dropCR line)) = true) :
    eachLine readErr (onAuth L more) (n + 1) step ⟨line ++ 10 :: rest, coming⟩ =
      (⟨rest, coming⟩,
        finalResult L "sieve authentication failed: " () (trimmed (dropCR line))) := by
  have hplus : ¬['+'].isPrefixOf (trimmed (dropCR line)) = true := by
    intro hprefix
    obtain ⟨t, ht⟩ := List.isPrefixOf_iff_prefix.mp hprefix
    rw [← ht, List.singleton_append, not_final_of_head hL (.inr (.inr rfl))] at hfinal
    cases hfinal
  refine eachLine_last hfree ?_ ?_
  · intro hnil
    rw [hnil] at hfinal
    obtain ⟨c, t, h, -⟩ := head_of_isFinalLine hfinal
    cases h
  · rw [onAuth, if_neg hplus, hfinal]
    rfl

theorem map_map_unit {β : Type} (result : Except Fault α) (f : α → β) :
    (result.map f).map (fun _ => ()) = result.map fun _ => () := by
  cases result with
  | ok value => rfl
  | error fault => rfl

theorem map_unit (result : Except Fault Unit) : result.map (fun _ => ()) = result := by
  cases result with
  | ok value => rfl
  | error fault => rfl

/-- **Challenges and a status**, from a step of the authentication on. -/
theorem auth_iff (hL : UpperASCII L) {st : Status} (h : st.Conforms) {rows : List Row}
    (hrows : ∀ row ∈ rows, row.IsChallenge) (n step : Nat) (hn : 2 * rows.length + 1 ≤ n) :
    ((eachLine readErr (onAuth L more) n step
        (Link.mk [] (rows.map Row.octets ++ [st.octets])).turn).1 = ⟨[], []⟩ ∧
      Reports L st.word (eachLine readErr (onAuth L more) n step
        (Link.mk [] (rows.map Row.octets ++ [st.octets])).turn).2) ↔
    (st.NoLiteral ∧ st.word ≠ .bye) ∧ (∀ row ∈ rows, row.Answered) ∧
      ∀ i < rows.length, more (step + i) = true := by
  induction rows generalizing n step with
  | nil =>
    by_cases hbye : st.word = .bye
    · refine iff_of_false (fun hexact => ?_) fun hplain => hplain.1.2 hbye
      have hreports := hexact.2
      rw [hbye, ← map_unit (eachLine _ _ _ _ _).2] at hreports
      exact not_reports_bye (fun _ _ => auth_replied) hreports
    obtain ⟨line, rest, hoctets, hfree, hrest, hbegins⟩ := status_line hL h
    have hturn : (Link.mk [] (([] : List Row).map Row.octets ++ [st.octets])).turn =
        ⟨line ++ 10 :: rest, []⟩ := by
      simp [Link.turn, hoctets]
    obtain ⟨m, rfl⟩ := Nat.exists_eq_add_of_le' hn
    rw [hturn, List.length_nil, Nat.mul_zero, Nat.zero_add,
      auth_last hL hfree (name_final hbye hbegins)]
    constructor
    · rintro ⟨hlink, -⟩
      exact ⟨⟨hrest.mp (Link.mk.inj hlink).1, hbye⟩, by simp, by simp⟩
    · rintro ⟨⟨hlit, -⟩, -, -⟩
      rw [hrest.mpr hlit]
      refine ⟨rfl, ?_⟩
      rw [← map_unit (finalResult _ _ _ _)]
      exact reports_final hbye hbegins
  | cons row rows ih =>
    obtain ⟨hrow, hrows⟩ := List.forall_mem_cons.mp hrows
    rw [List.length_cons] at hn
    by_cases hanswered : row.Answered
    · obtain ⟨m, rfl⟩ : ∃ m, n = 2 + m := ⟨n - 2, by omega⟩
      rw [List.map_cons, List.cons_append, auth_answered hL hrow hanswered]
      cases hmore : more step with
      | true =>
        rw [if_pos rfl, ih hrows m (step + 1) (by omega), List.forall_mem_cons, List.length_cons,
          Nat.forall_lt_succ_left']
        simp [hanswered, hmore, Nat.add_assoc, Nat.add_comm 1]
      | false =>
        rw [if_neg Bool.false_ne_true]
        refine iff_of_false (fun hexact => ?_) fun hplain => ?_
        · exact List.append_ne_nil_of_right_ne_nil _ (List.cons_ne_nil _ _) (Link.mk.inj hexact.1).2
        · have hzero := hplain.2.2 0 (by simp)
          rw [Nat.add_zero, hmore] at hzero
          cases hzero
    · refine iff_of_false (fun hexact => ?_) fun hplain => hanswered (hplain.2.1 row List.mem_cons_self)
      have hturn : (Link.mk [] ((row :: rows).map Row.octets ++ [st.octets])).turn =
          ⟨unlines (pieces (row.body ++ [13])), rows.map Row.octets ++ [st.octets]⟩ := by
        rw [← octets_row]
        rfl
      have hsilent := @auth_silent L more readErr n step (rows.map Row.octets ++ [st.octets]) _
        (fun line hline => not_mem_pieces hline) (unanswered_lines hrow hanswered)
      rw [← hturn, hexact.1] at hsilent
      exact List.append_ne_nil_of_right_ne_nil _ (List.cons_ne_nil _ _) hsilent.symm

end Challenges

/-! ## Dialogues -/

/-- A command that reads lines up to a final one, whatever it makes of them. -/
theorem command_iff (hL : UpperASCII L) (before : String) {rows : List Row} {st : Status}
    (h : st.Conforms) {r : Link × Except Fault Unit}
    (hlink : r.1 = ((Link.mk [] [rows.flatMap Row.octets ++ st.octets]).command L before).1)
    (hresult : r.2 = ((Link.mk [] [rows.flatMap Row.octets ++ st.octets]).command L before).2.map
      fun _ => ()) :
    (r.1 = ⟨[], []⟩ ∧ Reports L st.word r.2) ↔
    st.NoLiteral ∧ st.word ≠ .bye ∧
      ∀ row ∈ rows, ∀ line ∈ row.lines, isFinalLine L (trimmed line) = false := by
  rw [hlink, hresult, Link.command, reports_wrap]
  exact readUntilFinal_iff hL rows h

theorem plain_of_lines {x : Exchange} (hcommand : x.command ≠ .startTLS)
    (hrows : RowsPlain L x.response.rows x.command ↔
      ∀ row ∈ x.response.rows, ∀ line ∈ row.lines, isFinalLine L (trimmed line) = false) :
    (x.response.status.NoLiteral ∧ x.response.status.word ≠ .bye ∧
      ∀ row ∈ x.response.rows, ∀ line ∈ row.lines, isFinalLine L (trimmed line) = false) ↔
    x.Plain L := by
  constructor
  · rintro ⟨hlit, hbye, hlines⟩
    exact ⟨hlit, fun h => absurd h hbye, hrows.mpr hlines⟩
  · rintro ⟨hlit, hbye, hlines⟩
    exact ⟨hlit, fun h => hcommand (hbye h), hrows.mp hlines⟩

theorem length_row (row : Row) : 2 ≤ row.octets.length := by
  simp [Row.octets, lineEnd]

/-- An authentication has turns enough for its challenges. -/
theorem challenges_le (rows : List Row) (chunk : Octets) :
    2 * rows.length ≤ (Link.mk [] (rows.map Row.octets ++ [chunk])).turn.size := by
  have hsize : (Link.mk [] (rows.map Row.octets ++ [chunk])).turn.size =
      ((rows.map Row.octets ++ [chunk]).map List.length).sum := by
    cases rows with
    | nil => simp [Link.turn, Link.size]
    | cons row rows => simp [Link.turn, Link.size]
  rw [hsize]
  induction rows with
  | nil => simp
  | cons row rows ih =>
    have hrow := length_row row
    simp only [List.map_cons, List.cons_append, List.sum_cons, List.length_cons] at ih ⊢
    have hih := ih (by cases rows <;> simp [Link.turn, Link.size])
    omega

/-- **An exchange** from an empty link on leaves it empty and is reported exactly when the
client can read the response. -/
theorem exact_iff (hL : UpperASCII L) {x : Exchange} (hx : x.Conforms) :
    ((perform L x.command ((Link.mk [] []).expect x)).1 = ⟨[], []⟩ ∧
      Reports L x.response.status.word (perform L x.command ((Link.mk [] []).expect x)).2) ↔
    x.Plain L := by
  obtain ⟨command, rows, st⟩ := x
  obtain ⟨hissued, hstatus, hrows⟩ := hx
  cases command with
  | greeting => exact (command_iff hL "" hstatus rfl rfl).trans (plain_of_lines (by simp) Iff.rfl)
  | capability => exact (command_iff hL "" hstatus rfl rfl).trans (plain_of_lines (by simp) Iff.rfl)
  | setActive =>
    exact (command_iff hL "SETACTIVE failed: " hstatus rfl rfl).trans
      (plain_of_lines (by simp) Iff.rfl)
  | checkScript =>
    exact (command_iff hL "CHECKSCRIPT failed: " hstatus rfl rfl).trans
      (plain_of_lines (by simp) Iff.rfl)
  | haveSpace =>
    exact (command_iff hL "HAVESPACE failed: " hstatus rfl rfl).trans
      (plain_of_lines (by simp) Iff.rfl)
  | putScript name =>
    refine (command_iff hL "PUTSCRIPT failed: " hstatus ?_ ?_).trans
      (plain_of_lines (by simp) Iff.rfl)
    · rw [perform, Link.putScript, if_neg hissued]
      rfl
    · rw [perform, Link.putScript, if_neg hissued]
      rfl
  | deleteScript name =>
    refine (command_iff hL "DELETESCRIPT failed: " hstatus ?_ ?_).trans
      (plain_of_lines (by simp) Iff.rfl)
    · rw [perform, Link.deleteScript, if_neg hissued]
      rfl
    · rw [perform, Link.deleteScript, if_neg hissued]
      rfl
  | listScripts =>
    exact (command_iff hL "LISTSCRIPTS failed: " hstatus rfl (map_map_unit _ _)).trans
      (plain_of_lines (by simp) Iff.rfl)
  | getScript name =>
    have hshape : rows = [] ∨ ∃ script : Str, script.Conforms ∧ rows = [.single script] := by
      rw [RowsConform] at hrows
      split at hrows
      · exact .inr hrows
      · exact .inl hrows
    refine (getScript_iff hL hissued hstatus hshape).trans ⟨?_, ?_⟩
    · rintro ⟨hlit, hbye⟩
      exact ⟨hlit, fun h => absurd h hbye, trivial⟩
    · rintro ⟨hlit, hbye, -⟩
      exact ⟨hlit, fun h => by cases hbye h⟩
  | startTLS =>
    obtain rfl : rows = [] := hrows
    refine (startTLS_iff hL hstatus).trans ⟨?_, fun h => h.noLiteral⟩
    exact fun hlit => ⟨hlit, fun _ => rfl, by simp [RowsPlain]⟩
  | authenticate mech =>
    have hturns := challenges_le rows st.octets
    refine (auth_iff hL hstatus hrows _ 0 (Nat.succ_le_succ hturns)).trans ?_
    have hmore : (∀ i < rows.length, answersMore L mech (0 + i) = true) ↔
        (L.equalFold mech "LOGIN".toList → rows.length ≤ 2) := by
      simp only [Nat.zero_add, answersMore, Bool.or_eq_true, decide_eq_true_iff, Bool.not_eq_true']
      constructor
      · intro hall hlogin
        by_contra hlt
        have htwo := hall 2 (by omega)
        rw [hlogin] at htwo
        obtain htwo | htwo := htwo
        · cases htwo
        · exact absurd htwo (by decide)
      · intro hle i hi
        cases hlogin : L.equalFold mech "LOGIN".toList with
        | false => exact .inl rfl
        | true =>
          have hlength := hle hlogin
          exact .inr (by omega)
    rw [hmore]
    constructor
    · rintro ⟨⟨hlit, hbye⟩, hrows⟩
      exact ⟨hlit, fun h => absurd h hbye, hrows⟩
    · rintro ⟨hlit, hbye, hrows⟩
      exact ⟨⟨hlit, fun h => by cases hbye h⟩, hrows⟩

/-- **Framing.** Each command of a dialogue reads its own response, all of it and nothing else,
and reports its status, exactly when the client can read every response. -/
theorem framed_iff (L : TextLib) (hL : UpperASCII L) (dialogue : List Exchange)
    (hconforms : ∀ x ∈ dialogue, x.Conforms) :
    Framed L ⟨[], []⟩ dialogue ↔ ∀ x ∈ dialogue, x.Plain L := by
  induction dialogue with
  | nil => exact iff_of_true trivial (by simp)
  | cons x rest ih =>
    obtain ⟨hx, hrest⟩ := List.forall_mem_cons.mp hconforms
    rw [Framed, List.forall_mem_cons, ← exact_iff hL hx]
    constructor
    · rintro ⟨hlink, hreports, hframed⟩
      rw [hlink] at hframed
      exact ⟨⟨hlink, hreports⟩, (ih hrest).mp hframed⟩
    · rintro ⟨⟨hlink, hreports⟩, hplain⟩
      refine ⟨hlink, hreports, ?_⟩
      rw [hlink]
      exact (ih hrest).mpr hplain

/-- Letters of ASCII alone. -/
def asciiText : TextLib where
  toUpper := Char.toUpper
  equalFold := fun s t => s.map Char.toUpper == t.map Char.toUpper
  base64Token := id

/-- A script that is not deleted, for a reason in quotes or in a literal, and then the active
script that is not switched off. -/
def refusals (reason : Str) : List Exchange :=
  [⟨.deleteScript "a".toList, [], .no, [78, 79], none, some reason⟩,
    ⟨.setActive, [], .no, [78, 79], none, none⟩]

theorem conforms_refusals {reason : Str} (h : reason.Conforms) :
    ∀ x ∈ refusals reason, x.Conforms := by
  have hascii : ∀ b ∈ ([78, 79] : Octets), b < 0x80 := by simp
  refine List.forall_mem_cons.mpr ⟨⟨List.cons_ne_nil _ _, ⟨hascii, rfl, by simp, ?_⟩, rfl⟩, ?_⟩
  · intro text htext
    rwa [← Option.some.inj htext]
  · exact List.forall_mem_singleton.mpr ⟨trivial, ⟨hascii, rfl, by simp, by simp⟩, rfl⟩

/-- In quotes, both are read as they should be. -/
theorem framed_iff_refusals : Framed asciiText ⟨[], []⟩ (refusals (.quoted [111, 110])) := by
  have hquoted : (Str.quoted [111, 110]).Conforms := by
    simp [Str.Conforms]
  refine (framed_iff asciiText (fun _ _ => rfl) _ (conforms_refusals hquoted)).mpr ?_
  refine List.forall_mem_cons.mpr ⟨⟨⟨by simp, ?_⟩, nofun, nofun⟩, ?_⟩
  · intro text htext
    rw [← Option.some.inj htext]
    exact id
  · exact List.forall_mem_singleton.mpr ⟨⟨by simp, by simp⟩, nofun, nofun⟩

/-- A reason in a literal is left for the second command, which takes it for its answer. -/
theorem literal_not_framed :
    ¬∀ (L : TextLib) (_ : UpperASCII L) (dialogue : List Exchange)
      (_ : ∀ x ∈ dialogue, x.Conforms), Framed L ⟨[], []⟩ dialogue := by
  intro hall
  have hliteral : (Str.literal [79, 75]).Conforms := Nat.lt_of_sub_pos (by decide)
  have hframed := hall asciiText (fun _ _ => rfl) (refusals (.literal [79, 75]))
    (conforms_refusals hliteral)
  have hleft : (perform asciiText (.deleteScript "a".toList) ((Link.mk [] []).expect
      ⟨.deleteScript "a".toList, [], .no, [78, 79], none, some (.literal [79, 75])⟩)).1 =
      ⟨[79, 75, 13, 10], []⟩ := by
    decide
  exact absurd (hleft.symm.trans hframed.1) (by decide)

/-- The server says `NO`, but what is left of its last reason says `OK`. -/
example : (perform asciiText .setActive ⟨[79, 75, 13, 10], [[78, 79, 13, 10]]⟩).2 = .ok () := by
  decide

end E2Mail.ManageSieve
