import E2Mail.Imap.Search
import E2Mail.Lib.Lines

/-!
# The words of a search

The scanner of a query takes one byte after the other for a character. A byte of a longer encoding
can so be taken for a space, and the word around it is cut.

* `tokenizeSearch_joined` — words without such a byte are read back;
* `isSpaceByte_of_mem_tokenizeSearch` — no token has one;
* `tokenizeSearch_words_iff` — when the words of a query are its tokens.
-/

namespace E2Mail.Imap

open Lib

/-! ## Bytes -/

theorem utf8_eq (s : String) : utf8 s = s.toList.flatMap String.utf8EncodeChar := by
  have hofList : utf8 (String.ofList s.toList) = s.toList.flatMap String.utf8EncodeChar := by
    rw [utf8, String.toUTF8_eq_toByteArray, String.toByteArray_ofList, List.utf8Encode,
      List.data_toByteArray]
  rwa [String.ofList_toList] at hofList

/-- The spaces among the bytes above 127. -/
theorem isSpaceByte_high {b : UInt8} (hb : 0x80 ≤ b.toNat) (h : isSpaceByte b = true) :
    b = 0x85 ∨ b = 0xA0 := by
  have hlt := b.toNat_lt
  have htoNat : (Char.ofNat b.toNat).toNat = b.toNat := by
    have hvalid : b.toNat.isValidChar := .inl (by omega)
    rw [Char.ofNat, dif_pos hvalid]
    rfl
  rw [isSpaceByte, isSpace, htoNat] at h
  have hnat : b.toNat = 0x85 ∨ b.toNat = 0xA0 := by
    simp at h
    omega
  exact hnat.imp UInt8.toNat.inj UInt8.toNat.inj

/-! ## The words -/

/-- A word of a query: not empty, and without whitespace, quotes and colons. -/
structure Word where
  text : String
  ne_nil : text ≠ ""
  plain : ∀ c ∈ text.toList, isSpace c = false ∧ c.toNat ≠ 34 ∧ c.toNat ≠ 39 ∧ c.toNat ≠ 58

/-- The word as it stands in a query. -/
def Word.bytes (w : Word) : Bytes := utf8 w.text

/-- The words, with single spaces between them. -/
def joined (words : List Word) : Bytes := [32].intercalate (words.map Word.bytes)

/-- There are no quotes and no colons. -/
def PlainBytes (q : Bytes) : Prop := ∀ b ∈ q, b ≠ 34 ∧ b ≠ 39 ∧ b ≠ 58

theorem Word.plainBytes (w : Word) : PlainBytes w.bytes := by
  intro b hb
  rw [Word.bytes, utf8_eq] at hb
  obtain ⟨c, hc, hbc⟩ := List.mem_flatMap.1 hb
  have hplain := w.plain c hc
  have hbyte := mem_utf8EncodeChar hbc
  refine ⟨?_, ?_, ?_⟩ <;>
  · rintro rfl
    simp at hbyte
    omega

theorem PlainBytes.cons_space {q : Bytes} (hq : PlainBytes q) : PlainBytes (32 :: q) := by
  intro b hb
  rcases List.mem_cons.1 hb with rfl | hb
  · decide
  · exact hq b hb

theorem PlainBytes.append {w q : Bytes} (hw : PlainBytes w) (hq : PlainBytes q) :
    PlainBytes (w ++ q) := fun b hb => (List.mem_append.1 hb).elim (hw b) (hq b)

theorem plainBytes_intercalate {ws : List Bytes} (h : ∀ w ∈ ws, PlainBytes w) :
    PlainBytes ([32].intercalate ws) := by
  induction ws with
  | nil => exact fun b hb => (List.not_mem_nil hb).elim
  | cons w ws ih =>
    have hw := h w List.mem_cons_self
    have hrest := ih fun w' hw' => h w' (List.mem_cons_of_mem _ hw')
    cases ws with
    | nil => rwa [List.intercalate_singleton]
    | cons w' ws =>
      rw [List.intercalate_cons_cons, List.append_assoc]
      exact hw.append hrest.cons_space

theorem Word.bytes_ne_nil (w : Word) : w.bytes ≠ [] := by
  rw [Word.bytes, utf8_eq]
  intro h
  rw [List.flatMap_eq_nil_iff] at h
  cases hl : w.text.toList with
  | nil => exact w.ne_nil (String.toList_eq_nil_iff.1 hl)
  | cons c l =>
    have hnil := h c (by rw [hl]; exact List.mem_cons_self)
    exact String.utf8EncodeChar_ne_nil hnil

/-- A space in a word is part of a longer encoding. -/
theorem Word.isSpaceByte_iff (w : Word) {b : UInt8} (hb : b ∈ w.bytes) :
    isSpaceByte b = true ↔ b = 0x85 ∨ b = 0xA0 := by
  constructor
  · intro h
    rw [Word.bytes, utf8_eq] at hb
    obtain ⟨c, hc, hbc⟩ := List.mem_flatMap.1 hb
    rcases mem_utf8EncodeChar hbc with heq | ⟨-, hhigh⟩
    · have hspace := (w.plain c hc).1
      rw [isSpaceByte, heq, Char.ofNat_toNat, hspace] at h
      cases h
    · exact isSpaceByte_high hhigh h
  · rintro (rfl | rfl) <;> decide

/-! ## One token -/

theorem tokenizeSearch_blank {q : Bytes} (h : q.dropWhile isSpaceByte = []) :
    tokenizeSearch q = [] := by
  rw [tokenizeSearch]
  split
  · rfl
  · rename_i c q' hq
    rw [h] at hq
    cases hq

/-- Where no operator stands, the next word is a token. -/
theorem tokenizeSearch_plain {q q' : Bytes} {c : UInt8} (h : q.dropWhile isSpaceByte = c :: q')
    (hkey : readKey (c :: q') = none) :
    tokenizeSearch q =
      if (readWord (c :: q')).1 = [] then tokenizeSearch (readWord (c :: q')).2
      else ⟨[], (readWord (c :: q')).1⟩ :: tokenizeSearch (readWord (c :: q')).2 := by
  conv => lhs; rw [tokenizeSearch]
  split
  · rename_i hq
    rw [h] at hq
    cases hq
  · rename_i c' r hq
    rw [h] at hq
    obtain ⟨rfl, rfl⟩ := List.cons.inj hq
    split
    · rfl
    · rename_i key rest hsome
      rw [hkey] at hsome
      cases hsome

theorem readKey_none {q : Bytes} (h : 58 ∉ q) : readKey q = none := by
  rw [readKey]
  split
  · rename_i c rest hq
    rw [if_neg]
    have hmem : c ∈ q := (List.dropWhile_sublist _).subset (hq ▸ List.mem_cons_self)
    intro hc
    exact h ((eq_of_beq hc) ▸ hmem)
  · rfl

theorem readWord_plain {c : UInt8} {q : Bytes} (h : PlainBytes (c :: q)) :
    readWord (c :: q) = ((c :: q).takeWhile fun d => !isSpaceByte d,
      (c :: q).dropWhile fun d => !isSpaceByte d) := by
  have hc := h c List.mem_cons_self
  rw [readWord, if_neg]
  simp [hc.1, hc.2.1]

/-- The next word of a query without quotes and operators, up to the next space. -/
theorem tokenizeSearch_next {q q' : Bytes} {c : UInt8} (hq : PlainBytes q)
    (h : q.dropWhile isSpaceByte = c :: q') :
    tokenizeSearch q = ⟨[], (c :: q').takeWhile fun d => !isSpaceByte d⟩ ::
      tokenizeSearch ((c :: q').dropWhile fun d => !isSpaceByte d) := by
  have hsub : PlainBytes (c :: q') := fun b hb =>
    hq b ((List.dropWhile_sublist _).subset (h ▸ hb))
  have hne : (c :: q').takeWhile (fun d => !isSpaceByte d) ≠ [] := by
    rw [List.takeWhile_cons_of_pos (by rw [isSpaceByte_head h]; rfl)]
    exact List.cons_ne_nil _ _
  rw [tokenizeSearch_plain h (readKey_none fun h58 => (hsub 58 h58).2.2 rfl), readWord_plain hsub,
    if_neg hne]

/-- A space in front is skipped. -/
theorem tokenizeSearch_space {q : Bytes} (hq : PlainBytes q) :
    tokenizeSearch (32 :: q) = tokenizeSearch q := by
  have hspace : (32 :: q).dropWhile isSpaceByte = q.dropWhile isSpaceByte :=
    List.dropWhile_cons_of_pos (by decide)
  cases hd : q.dropWhile isSpaceByte with
  | nil => rw [tokenizeSearch_blank hd, tokenizeSearch_blank (hspace.trans hd)]
  | cons c q' => rw [tokenizeSearch_next hq hd, tokenizeSearch_next hq.cons_space (hspace.trans hd)]

/-- A word that no space follows in itself is read whole. -/
theorem tokenizeSearch_word {w rest : Bytes} (hne : w ≠ [])
    (hclean : ∀ b ∈ w, isSpaceByte b = false) (hplain : PlainBytes (w ++ rest))
    (hrest : ∀ b ∈ rest.head?, isSpaceByte b = true) :
    tokenizeSearch (w ++ rest) = ⟨[], w⟩ :: tokenizeSearch rest := by
  obtain ⟨c, w', rfl⟩ := List.exists_cons_of_ne_nil hne
  have hall : ∀ d ∈ c :: w', (!isSpaceByte d) = true := by
    intro d hd
    rw [hclean d hd]
    rfl
  have hhead : (c :: w' ++ rest).dropWhile isSpaceByte = c :: (w' ++ rest) :=
    List.dropWhile_cons_of_neg (by rw [hclean c List.mem_cons_self]; exact Bool.false_ne_true)
  have hstop : rest.takeWhile (fun d => !isSpaceByte d) = [] ∧
      rest.dropWhile (fun d => !isSpaceByte d) = rest := by
    cases rest with
    | nil => exact ⟨rfl, rfl⟩
    | cons b r =>
      have hb := hrest b rfl
      exact ⟨List.takeWhile_cons_of_neg (by simp [hb]), List.dropWhile_cons_of_neg (by simp [hb])⟩
  rw [tokenizeSearch_next hplain hhead, ← List.cons_append, List.takeWhile_append_of_pos hall,
    List.dropWhile_append_of_pos hall, hstop.1, hstop.2, List.append_nil]

/-! ## All tokens -/

/-- Words that have no space are read back. -/
theorem tokenizeSearch_joined {ws : List Bytes}
    (h : ∀ w ∈ ws, w ≠ [] ∧ (∀ b ∈ w, isSpaceByte b = false) ∧ PlainBytes w) :
    tokenizeSearch ([32].intercalate ws) = ws.map fun w => ⟨[], w⟩ := by
  induction ws with
  | nil => exact tokenizeSearch_blank rfl
  | cons w ws ih =>
    obtain ⟨hne, hclean, hplain⟩ := h w List.mem_cons_self
    have hrest := fun w' hw' => h w' (List.mem_cons_of_mem _ hw')
    cases ws with
    | nil =>
      have hword : tokenizeSearch (w ++ []) = ⟨[], w⟩ :: tokenizeSearch [] :=
        tokenizeSearch_word hne hclean (by rwa [List.append_nil]) (fun b hb => by cases hb)
      rw [List.append_nil] at hword
      rw [List.intercalate_singleton, hword]
      exact congrArg _ (tokenizeSearch_blank rfl)
    | cons w' ws =>
      have hq : PlainBytes ([32].intercalate (w' :: ws)) :=
        plainBytes_intercalate fun v hv => (hrest v hv).2.2
      have hword := tokenizeSearch_word hne hclean (hplain.append hq.cons_space) (fun b hb => by
        obtain rfl : 32 = b := by simpa using hb
        decide)
      rw [List.intercalate_cons_cons, List.append_assoc]
      exact hword.trans (by rw [tokenizeSearch_space hq, ih hrest]; rfl)

/-- **No token has a space.** -/
theorem isSpaceByte_of_mem_tokenizeSearch {q : Bytes} (hq : PlainBytes q) :
    ∀ t ∈ tokenizeSearch q, ∀ b ∈ t.value, isSpaceByte b = false := by
  -- induction on the length of what is not read yet
  induction hlen : q.length using Nat.strong_induction_on generalizing q with
  | _ n ih =>
    intro t ht b hb
    cases hd : q.dropWhile isSpaceByte with
    | nil =>
      rw [tokenizeSearch_blank hd] at ht
      cases ht
    | cons c q' =>
      rw [tokenizeSearch_next hq hd] at ht
      rcases List.mem_cons.1 ht with rfl | ht
      · simpa using List.mem_takeWhile_imp hb
      · have hsub : ((c :: q').dropWhile fun d => !isSpaceByte d).Sublist q :=
          (List.dropWhile_sublist _).trans (hd ▸ List.dropWhile_sublist _)
        have hlt : ((c :: q').dropWhile fun d => !isSpaceByte d).length < n := by
          rw [List.dropWhile_cons_of_pos (by rw [isSpaceByte_head hd]; rfl)]
          have hle := length_dropWhile_le isSpaceByte q
          have hle' := length_dropWhile_le (fun d => !isSpaceByte d) q'
          rw [hd, List.length_cons] at hle
          omega
        exact ih _ hlt (fun b hb => hq b (hsub.subset hb)) rfl t ht b hb

/-- A phrase in double quotes is one token, whatever is in it. -/
theorem tokenizeSearch_phrase {q : Bytes} (hne : q ≠ []) (h : 34 ∉ q) :
    tokenizeSearch (34 :: q ++ [34]) = [⟨[], q⟩] := by
  have hall : ∀ b ∈ q, (b != 34) = true := by
    intro b hb
    rw [bne_iff_ne]
    rintro rfl
    exact h hb
  have hword : readWord (34 :: (q ++ [34])) = (q, []) := by
    rw [readWord, if_pos (by decide), List.takeWhile_append_of_pos hall,
      List.dropWhile_append_of_pos hall]
    simp
  have hhead : (34 :: q ++ [34]).dropWhile isSpaceByte = 34 :: (q ++ [34]) :=
    List.dropWhile_cons_of_neg (by decide)
  rw [tokenizeSearch_plain hhead (by rfl), hword, if_neg hne, tokenizeSearch_blank rfl]

/-! ## The words and the phrase -/

/-- **The words of a query are its tokens**, and a quoted phrase is one, exactly where no word has
a byte that is taken for a space. -/
theorem tokenizeSearch_words_iff (words : List Word) :
    (tokenizeSearch (joined words) = words.map (fun w => ⟨[], w.bytes⟩) ∧
      (words ≠ [] → tokenizeSearch (34 :: joined words ++ [34]) = [⟨[], joined words⟩])) ↔
      ∀ w ∈ words, 0x85 ∉ w.bytes ∧ 0xA0 ∉ w.bytes := by
  have hwords : ∀ w ∈ words.map Word.bytes, PlainBytes w := by
    intro b hb
    obtain ⟨w, -, rfl⟩ := List.mem_map.1 hb
    exact w.plainBytes
  have hplain : PlainBytes (joined words) := plainBytes_intercalate hwords
  constructor
  · rintro ⟨htokens, -⟩ w hw
    -- the word is the value of a token
    have hmem : ⟨[], w.bytes⟩ ∈ tokenizeSearch (joined words) := by
      rw [htokens]
      exact List.mem_map_of_mem hw
    have hclean := isSpaceByte_of_mem_tokenizeSearch hplain _ hmem
    constructor <;>
    · intro hb
      have hspace := hclean _ hb
      revert hspace
      decide
  · intro h
    have hclean : ∀ w ∈ words.map Word.bytes,
        w ≠ [] ∧ (∀ b ∈ w, isSpaceByte b = false) ∧ PlainBytes w := by
      intro w' hw'
      obtain ⟨w, hw, rfl⟩ := List.mem_map.1 hw'
      refine ⟨w.bytes_ne_nil, fun b hb => ?_, w.plainBytes⟩
      rw [Bool.eq_false_iff, ne_eq, w.isSpaceByte_iff hb]
      rintro (rfl | rfl)
      · exact (h w hw).1 hb
      · exact (h w hw).2 hb
    refine ⟨?_, fun hne => tokenizeSearch_phrase ?_ fun h34 => (hplain 34 h34).1 rfl⟩
    · rw [joined, tokenizeSearch_joined hclean, List.map_map]
      rfl
    · obtain ⟨w, words, rfl⟩ := List.exists_cons_of_ne_nil hne
      rw [joined, List.map_cons]
      cases words with
      | nil =>
        rw [List.map_nil, List.intercalate_singleton]
        exact w.bytes_ne_nil
      | cons w' words =>
        rw [List.map_cons, List.intercalate_cons_cons, List.append_assoc]
        exact fun h => w.bytes_ne_nil (List.append_eq_nil_iff.1 h).1

/-- The word for a whole. -/
def quan : Word := ⟨"全", by decide, by simp [isSpace]⟩

/-- The second byte of the word is taken for a space, and the word is cut there. -/
theorem quan_cut :
    ¬ ∀ words : List Word, tokenizeSearch (joined words) = words.map (fun w => ⟨[], w.bytes⟩) ∧
      (words ≠ [] → tokenizeSearch (34 :: joined words ++ [34]) = [⟨[], joined words⟩]) := by
  intro h
  have hmem : ⟨[], quan.bytes⟩ ∈ tokenizeSearch (joined [quan]) := by
    rw [(h [quan]).1]
    exact List.mem_cons_self
  have hbyte : 0x85 ∈ quan.bytes := by decide +kernel
  have hclean := isSpaceByte_of_mem_tokenizeSearch
    (plainBytes_intercalate fun w hw => by
      obtain rfl : w = quan.bytes := by simpa using hw
      exact quan.plainBytes) _ hmem _ hbyte
  revert hclean
  decide

end E2Mail.Imap
