import E2Mail.Imap.ThreadIndex

/-!
# References as they are written

A References header is a list of message ids in angle brackets, with any whitespace between them,
and may be folded at each of these places. The backend unfolds the bytes that come in, looks for
the name of the header, and cuts what follows at the closing brackets.

* `MsgID`, `Gap`, `ReferencesHeader` — the header, as it may be written;
* `Around` — the bytes in front of it and after it;
* `unfold_raw` — the header is unfolded;
* `parseReferencesHeader_raw` — its ids are read, in order.
-/

namespace E2Mail.Imap

open Lib

/-! ## The header -/

/-- A message id: not empty, without whitespace and angle brackets. -/
structure MsgID where
  text : List Char
  ne_nil : text ≠ []
  plain : ∀ c ∈ text, isSpace c = false ∧ c ≠ '<' ∧ c ≠ '>'

/-- Whitespace between ids. -/
inductive Gap
  /-- whitespace within a line -/
  | blank (c : Char) (h : isSpace c = true ∧ c ≠ '\r' ∧ c ≠ '\n')
  /-- a line that is folded, and goes on with a space -/
  | foldSpace
  /-- a line that is folded, and goes on with a tab -/
  | foldTab

/-- The characters of a gap. -/
def Gap.text : Gap → List Char
  | blank c _ => [c]
  | foldSpace => ['\r', '\n', ' ']
  | foldTab => ['\r', '\n', '\t']

/-- What is left of a gap when the lines are unfolded. -/
def Gap.unfolded : Gap → List Char
  | blank c _ => [c]
  | foldSpace => [' ']
  | foldTab => [' ']

/-- A References header: its name in any case, and the ids with the gaps around them. -/
structure ReferencesHeader where
  name : List Char
  name_eq : name.map Char.toLower = "references".toList
  first : List Gap
  refs : List (MsgID × List Gap)

/-- An id and what comes after it. -/
def refText (gap : Gap → List Char) (r : MsgID × List Gap) : List Char :=
  '<' :: (r.1.text ++ '>' :: r.2.flatMap gap)

/-- The value of the header. -/
def ReferencesHeader.value (h : ReferencesHeader) (gap : Gap → List Char) : List Char :=
  h.first.flatMap gap ++ h.refs.flatMap (refText gap)

/-- The header as it is written. -/
def ReferencesHeader.text (h : ReferencesHeader) : List Char :=
  h.name ++ ':' :: h.value Gap.text

/-- `normalized`: the lines are unfolded. -/
def unfold (s : List Char) : List Char :=
  Text.replaceAll ['\r', '\n', '\t'] [' '] (Text.replaceAll ['\r', '\n', ' '] [' '] s)

/-- The bytes around a References header: in front of it lines of ASCII that do not name it, and
behind it nothing, or the end of its line and anything that does not go on with it. -/
structure Around where
  before : List Char
  behind : List Char
  ascii : ∀ c ∈ before, c.toNat < 0x80
  lines : ∀ c ∈ before.getLast?, c = '\n'
  silent : ¬ "references:".toList <:+: (unfold before).map Char.toLower
  ended : behind = [] ∨ ∃ rest, behind = '\r' :: '\n' :: rest ∧ ∀ c ∈ rest.head?, c ≠ ' ' ∧ c ≠ '\t'

/-- What comes in. -/
def Around.raw (a : Around) (h : ReferencesHeader) : List Char := a.before ++ (h.text ++ a.behind)

/-! ## Unfolding -/

section Unfold

variable {s t : List Char} {c : Char}

theorem unfold_cons (hc : c ≠ '\r') (s : List Char) : unfold (c :: s) = c :: unfold s := by
  have hnot : ∀ (d : Char) (t : List Char), ¬ ['\r', '\n', d] <+: c :: t := by
    intro d t hp
    exact hc (List.cons_prefix_cons.1 hp).1.symm
  rw [unfold, Text.replaceAll_cons (hnot ' ' s), Text.replaceAll_cons (hnot '\t' _)]
  rfl

theorem unfold_append (ht : ∀ c ∈ t, c ≠ '\r') (s : List Char) : unfold (t ++ s) = t ++ unfold s := by
  induction t with
  | nil => rfl
  | cons c t ih =>
    rw [List.cons_append, unfold_cons (ht c List.mem_cons_self),
      ih fun d hd => ht d (List.mem_cons_of_mem c hd)]
    rfl

theorem replaceSpace_newline (s : List Char) :
    Text.replaceAll ['\r', '\n', ' '] [' '] ('\n' :: s) =
      '\n' :: Text.replaceAll ['\r', '\n', ' '] [' '] s :=
  Text.replaceAll_cons fun hp => absurd (List.cons_prefix_cons.1 hp).1 (by decide)

/-- The end of a line that does not go on with a space stays in the first pass. -/
theorem replaceSpace_return (h : ∀ c ∈ s.head?, c ≠ ' ') :
    Text.replaceAll ['\r', '\n', ' '] [' '] ('\r' :: '\n' :: s) =
      '\r' :: '\n' :: Text.replaceAll ['\r', '\n', ' '] [' '] s := by
  rw [Text.replaceAll_cons fun hp => ?_, replaceSpace_newline]
  obtain ⟨t, ht⟩ := hp
  cases s with
  | nil => simp at ht
  | cons c s =>
    simp only [List.cons_append, List.cons.injEq] at ht
    exact h c rfl ht.2.2.1.symm

theorem unfold_foldSpace (s : List Char) : unfold ('\r' :: '\n' :: ' ' :: s) = ' ' :: unfold s := by
  have hfirst : Text.replaceAll ['\r', '\n', ' '] [' '] (['\r', '\n', ' '] ++ s) =
      [' '] ++ Text.replaceAll ['\r', '\n', ' '] [' '] s :=
    Text.replaceAll_append_self (List.cons_ne_nil _ _) s
  have hblank : ¬ ['\r', '\n', '\t'] <+: ' ' :: Text.replaceAll ['\r', '\n', ' '] [' '] s :=
    fun hp => absurd (List.cons_prefix_cons.1 hp).1 (by decide)
  rw [unfold]
  exact (congrArg _ hfirst).trans (Text.replaceAll_cons hblank)

theorem unfold_foldTab (s : List Char) : unfold ('\r' :: '\n' :: '\t' :: s) = ' ' :: unfold s := by
  have htab : ∀ c ∈ ('\t' :: s).head?, c ≠ ' ' := by
    intro c hc
    obtain rfl : '\t' = c := Option.some.inj hc
    decide
  have hkept : Text.replaceAll ['\r', '\n', ' '] [' '] ('\t' :: s) =
      '\t' :: Text.replaceAll ['\r', '\n', ' '] [' '] s :=
    Text.replaceAll_cons fun hp => absurd (List.cons_prefix_cons.1 hp).1 (by decide)
  rw [unfold, replaceSpace_return htab, hkept]
  exact Text.replaceAll_append_self (List.cons_ne_nil _ _) _

theorem unfold_gap (g : Gap) (s : List Char) : unfold (g.text ++ s) = g.unfolded ++ unfold s := by
  cases g with
  | blank c h => exact unfold_cons h.2.1 s
  | foldSpace => exact unfold_foldSpace s
  | foldTab => exact unfold_foldTab s

theorem unfold_gaps (gaps : List Gap) (s : List Char) :
    unfold (gaps.flatMap Gap.text ++ s) = gaps.flatMap Gap.unfolded ++ unfold s := by
  induction gaps with
  | nil => rfl
  | cons g gaps ih =>
    rw [List.flatMap_cons, List.append_assoc, unfold_gap, ih, List.flatMap_cons, List.append_assoc]

theorem MsgID.ne_return (id : MsgID) : ∀ c ∈ id.text, c ≠ '\r' ∧ c ≠ '\n' := by
  intro c hc
  have hspace := (id.plain c hc).1
  constructor <;>
  · rintro rfl
    revert hspace
    decide

theorem unfold_refText (r : MsgID × List Gap) (s : List Char) :
    unfold (refText Gap.text r ++ s) = refText Gap.unfolded r ++ unfold s := by
  have hid : ∀ c ∈ '<' :: (r.1.text ++ ['>']), c ≠ '\r' := by
    intro c hc
    simp only [List.mem_cons, List.mem_append, List.not_mem_nil, or_false] at hc
    rcases hc with rfl | hc | rfl
    · decide
    · exact (r.1.ne_return c hc).1
    · decide
  have hsplit : ∀ gap : Gap → List Char,
      refText gap r = '<' :: (r.1.text ++ ['>']) ++ r.2.flatMap gap := by
    intro gap
    rw [refText, List.cons_append, List.append_assoc]
    rfl
  rw [hsplit, hsplit, List.append_assoc, unfold_append hid, unfold_gaps, List.append_assoc]

theorem unfold_value (h : ReferencesHeader) (s : List Char) :
    unfold (h.value Gap.text ++ s) = h.value Gap.unfolded ++ unfold s := by
  have hrefs : ∀ refs : List (MsgID × List Gap), unfold (refs.flatMap (refText Gap.text) ++ s) =
      refs.flatMap (refText Gap.unfolded) ++ unfold s := by
    intro refs
    induction refs with
    | nil => rfl
    | cons r refs ih =>
      rw [List.flatMap_cons, List.append_assoc, unfold_refText, ih, List.flatMap_cons,
        List.append_assoc]
  rw [ReferencesHeader.value, ReferencesHeader.value, List.append_assoc, unfold_gaps, hrefs,
    List.append_assoc]

/-- The characters of the name are letters. -/
theorem ReferencesHeader.mem_name (h : ReferencesHeader) {c : Char} (hc : c ∈ h.name) :
    c.toNat < 0x80 ∧ c ∉ ['\r', '\n', '\t', ' '] := by
  have hlower : c.toLower ∈ "references".toList := h.name_eq ▸ List.mem_map_of_mem hc
  refine ⟨?_, ?_⟩
  · by_contra hbig
    have hsame : c.toLower = c := by
      refine dif_neg ?_
      rintro ⟨-, hle⟩
      have hle' : c.toNat ≤ 90 := hle
      omega
    rw [hsame] at hlower
    have hascii : ∀ d ∈ "references".toList, d.toNat < 0x80 := by simp
    exact hbig (hascii c hlower)
  · intro hmem
    have hblank : ∀ d ∈ ['\r', '\n', '\t', ' '], d.toLower ∉ "references".toList := by simp
    exact hblank c hmem hlower

theorem ReferencesHeader.name_ne_nil (h : ReferencesHeader) : h.name ≠ [] := by
  intro hnil
  have heq := h.name_eq
  rw [hnil] at heq
  revert heq
  decide

theorem head?_replaceSpace (s : List Char) :
    ∀ c ∈ (Text.replaceAll ['\r', '\n', ' '] [' '] s).head?, c = ' ' ∨ c ∈ s.head? := by
  intro c hc
  by_cases hp : ['\r', '\n', ' '] <+: s
  · obtain ⟨t, rfl⟩ := hp
    rw [Text.replaceAll_append_self (List.cons_ne_nil _ _)] at hc
    exact .inl (Option.some.inj hc).symm
  · cases s with
    | nil => cases hc
    | cons d s =>
      rw [Text.replaceAll_cons hp] at hc
      exact .inr hc

/-- What stands in front is unfolded on its own. -/
theorem unfold_before (hs : ∀ c ∈ s.head?, c ∉ ['\r', '\n', '\t', ' ']) (t : List Char) :
    unfold (t ++ s) = unfold t ++ unfold s := by
  have hfirst : Text.replaceAll ['\r', '\n', ' '] [' '] (t ++ s) =
      Text.replaceAll ['\r', '\n', ' '] [' '] t ++ Text.replaceAll ['\r', '\n', ' '] [' '] s := by
    refine Text.replaceAll_append (List.cons_ne_nil _ _) t fun u hu _ hp =>
      Text.prefix_of_prefix_append (fun c hc hmem => hs c hc ?_) hu hp
    exact (by simp : ∀ d ∈ ['\n', ' '], d ∈ ['\r', '\n', '\t', ' ']) c hmem
  have hsecond : ∀ c ∈ (Text.replaceAll ['\r', '\n', ' '] [' '] s).head?, c ∉ ['\n', '\t'] := by
    intro c hc hmem
    rcases head?_replaceSpace s c hc with rfl | hc
    · exact absurd hmem (by decide)
    · exact hs c hc ((by simp : ∀ d ∈ ['\n', '\t'], d ∈ ['\r', '\n', '\t', ' ']) c hmem)
  rw [unfold, hfirst, Text.replaceAll_append (List.cons_ne_nil _ _) _ fun u hu _ hp =>
    Text.prefix_of_prefix_append hsecond hu hp]
  rfl

/-- What stands behind the header still begins with the end of its line. -/
theorem unfold_behind (a : Around) : ∀ c ∈ (unfold a.behind).head?, c = '\r' := by
  rcases a.ended with hnil | ⟨rest, hrest, hhead⟩
  · rw [hnil]
    exact nofun
  · rw [hrest, unfold, replaceSpace_return fun c hc => (hhead c hc).1,
      Text.replaceAll_cons fun hp => ?_]
    · intro c hc
      exact (Option.some.inj hc).symm
    · -- the text behind the line does not begin with a tab, and a fold becomes a space
      obtain ⟨t, ht⟩ := hp
      simp only [List.cons_append, List.nil_append, List.cons.injEq, true_and] at ht
      rcases head?_replaceSpace rest '\t' (by rw [← ht]; rfl) with hspace | htab
      · exact absurd hspace (by decide)
      · exact (hhead '\t' htab).2 rfl

/-- **The header is unfolded**, and with it what is around it. -/
theorem unfold_raw (a : Around) (h : ReferencesHeader) :
    unfold (a.raw h) =
      unfold a.before ++ (h.name ++ ':' :: (h.value Gap.unfolded ++ unfold a.behind)) := by
  have hhead : ∀ c ∈ (h.text ++ a.behind).head?, c ∉ ['\r', '\n', '\t', ' '] := by
    intro c hc
    rw [ReferencesHeader.text, List.append_assoc, List.head?_append_of_ne_nil _ h.name_ne_nil] at hc
    exact (h.mem_name (List.mem_of_mem_head? hc)).2
  have hname : ∀ c ∈ h.name, c ≠ '\r' := by
    rintro c hc rfl
    exact (h.mem_name hc).2 List.mem_cons_self
  rw [Around.raw, unfold_before hhead, ReferencesHeader.text, List.append_assoc,
    unfold_append hname, List.cons_append, unfold_cons (by decide), unfold_value]

end Unfold

/-! ## The ids -/

section Ids

variable {H : Headers}

theorem MsgID.trimBy_text (id : MsgID) : Text.trimBy isSpace id.text = id.text :=
  Text.trimBy_eq_self fun c hc => (id.plain c hc).1

theorem MsgID.trimPrefix_text (id : MsgID) : Text.trimPrefix ['<'] id.text = id.text := by
  rw [Text.trimPrefix, if_neg fun hp => ?_]
  obtain ⟨t, ht⟩ := List.isPrefixOf_iff_prefix.1 hp
  have hmem : '<' ∈ id.text := ht ▸ List.mem_cons_self
  exact (id.plain '<' hmem).2.1 rfl

theorem MsgID.trimSuffix_text (id : MsgID) : Text.trimSuffix ['>'] id.text = id.text := by
  rw [Text.trimSuffix, if_neg fun hp => ?_]
  obtain ⟨t, ht⟩ := List.isSuffixOf_iff_suffix.1 hp
  have hmem : '>' ∈ id.text := ht ▸ List.mem_append_right t List.mem_cons_self
  exact (id.plain '>' hmem).2.2 rfl

/-- An id is normalised by taking its letters. -/
theorem normalizeMsgID_id (id : MsgID) :
    normalizeMsgID H (String.ofList id.text) = H.toLower (String.ofList id.text) := by
  rw [normalizeMsgID]
  simp only [String.toList_ofList, trimSpace, id.trimBy_text, id.trimPrefix_text,
    id.trimSuffix_text]

/-- The brackets make no difference. -/
theorem normalizeMsgID_brackets (id : MsgID) :
    normalizeMsgID H (String.ofList ('<' :: (id.text ++ ['>']))) =
      H.toLower (String.ofList id.text) := by
  have hplain : ∀ c ∈ '<' :: (id.text ++ ['>']), isSpace c = false := by
    intro c hc
    simp only [List.mem_cons, List.mem_append, List.not_mem_nil, or_false] at hc
    rcases hc with rfl | hc | rfl
    · decide
    · exact (id.plain c hc).1
    · decide
  have hpre : Text.trimPrefix ['<'] ('<' :: (id.text ++ ['>'])) = id.text ++ ['>'] := rfl
  have hsuf : Text.trimSuffix ['>'] (id.text ++ ['>']) = id.text := by
    have hsuffix : ['>'].isSuffixOf (id.text ++ ['>']) = true :=
      List.isSuffixOf_iff_suffix.2 (List.suffix_append _ _)
    rw [Text.trimSuffix, if_pos hsuffix, List.length_append, List.length_singleton,
      Nat.add_sub_cancel, List.take_left]
  rw [normalizeMsgID]
  simp only [String.toList_ofList, trimSpace, Text.trimBy_eq_self hplain, hpre, hsuf,
    id.trimBy_text]

theorem unfolded_gaps (gaps : List Gap) :
    ∀ c ∈ gaps.flatMap Gap.unfolded, isSpace c = true ∧ c ≠ '\r' ∧ c ≠ '\n' := by
  intro c hc
  obtain ⟨g, -, hcg⟩ := List.mem_flatMap.1 hc
  cases g with
  | blank d h =>
    obtain rfl := List.mem_singleton.1 hcg
    exact h
  | foldSpace =>
    obtain rfl := List.mem_singleton.1 hcg
    decide
  | foldTab =>
    obtain rfl := List.mem_singleton.1 hcg
    decide

theorem ReferencesHeader.value_plain (h : ReferencesHeader) :
    ∀ c ∈ h.value Gap.unfolded, c ≠ '\r' ∧ c ≠ '\n' := by
  intro c hc
  rcases List.mem_append.1 hc with hc | hc
  · exact (unfolded_gaps h.first c hc).2
  · obtain ⟨r, -, hcr⟩ := List.mem_flatMap.1 hc
    simp only [refText, List.mem_cons, List.mem_append] at hcr
    rcases hcr with rfl | hcr | rfl | hcr
    · decide
    · exact r.1.ne_return c hcr
    · decide
    · exact (unfolded_gaps r.2 c hcr).2

/-- The ids that are read from the value of a header. -/
def idsOf (H : Headers) (value : List Char) : List String :=
  (Text.splitBy (· == '>') value).filterMap fun part =>
    let tok := Text.trimBy isSpace (Text.trimPrefix ['<'] (Text.trimBy isSpace part))
    if tok = [] then none else some (normalizeMsgID H (String.ofList tok))

/-- Whitespace alone has no id. -/
theorem idsOf_blank {g : List Char} (hg : ∀ c ∈ g, isSpace c = true) : idsOf H g = [] := by
  have hclose : ∀ c ∈ g, (c == '>') = false := by
    intro c hc
    rw [beq_eq_false_iff_ne]
    rintro rfl
    exact absurd (hg '>' hc) (by decide)
  have hnil : Text.trimBy isSpace g = [] := by
    have happ := Text.trimBy_append_left hg []
    rwa [List.append_nil] at happ
  rw [idsOf, Text.splitBy_eq_singleton hclose, List.filterMap_cons_none, List.filterMap_nil]
  rw [hnil]
  rfl

/-- The first id, and what comes after it. -/
theorem idsOf_id {g : List Char} (hg : ∀ c ∈ g, isSpace c = true) (id : MsgID) (s : List Char) :
    idsOf H (g ++ '<' :: (id.text ++ '>' :: s)) =
      normalizeMsgID H (String.ofList id.text) :: idsOf H s := by
  have hclose : ∀ c ∈ g ++ '<' :: id.text, (c == '>') = false := by
    intro c hc
    rw [beq_eq_false_iff_ne]
    rintro rfl
    rcases List.mem_append.1 hc with hc | hc
    · exact absurd (hg '>' hc) (by decide)
    · rcases List.mem_cons.1 hc with hc | hc
      · exact absurd hc (by decide)
      · exact (id.plain '>' hc).2.2 rfl
  have hopen : ∀ c ∈ '<' :: id.text, isSpace c = false := by
    intro c hc
    rcases List.mem_cons.1 hc with rfl | hc
    · decide
    · exact (id.plain c hc).1
  have htok : Text.trimBy isSpace (Text.trimPrefix ['<']
      (Text.trimBy isSpace (g ++ '<' :: id.text))) = id.text := by
    rw [Text.trimBy_append_left hg, Text.trimBy_eq_self hopen]
    exact id.trimBy_text
  have hsplit : g ++ '<' :: (id.text ++ '>' :: s) = (g ++ '<' :: id.text) ++ '>' :: s := by
    rw [List.append_assoc]
    rfl
  rw [idsOf, hsplit, Text.splitBy_append hclose (beq_self_eq_true '>')]
  refine List.filterMap_cons_some ?_
  rw [htok, if_neg id.ne_nil]

theorem idsOf_refs (refs : List (MsgID × List Gap)) {g : List Char}
    (hg : ∀ c ∈ g, isSpace c = true) :
    idsOf H (g ++ refs.flatMap (refText Gap.unfolded)) =
      refs.map fun r => normalizeMsgID H (String.ofList r.1.text) := by
  induction refs generalizing g with
  | nil =>
    rw [List.flatMap_nil, List.append_nil]
    exact idsOf_blank hg
  | cons r refs ih =>
    rw [List.flatMap_cons, refText, List.cons_append, List.append_assoc, List.cons_append,
      idsOf_id hg, ih fun c hc => (unfolded_gaps r.2 c hc).1, List.map_cons]

/-! ## The header is read -/

theorem Around.ascii_before (a : Around) : ∀ c ∈ unfold a.before, c.toNat < 0x80 := by
  intro c hc
  rw [unfold] at hc
  have hblank : ∀ d ∈ [' '], d.toNat < 0x80 := by simp
  rcases Text.mem_of_mem_replaceAll hc with hc | hc
  · exact (Text.mem_of_mem_replaceAll hc).elim (a.ascii c) (hblank c)
  · exact hblank c hc

theorem Around.lower_before (a : Around) (W : H.CharWise) :
    (unfold a.before).map W.lower = (unfold a.before).map Char.toLower :=
  List.map_congr_left fun c hc => W.ascii c (a.ascii_before c hc)

theorem toLower_ascii {c : Char} (h : c.toNat < 0x80) : c.toLower.toNat < 0x80 := by
  have hall : ∀ n < 0x80, (Char.ofNat n).toLower.toNat < 0x80 := by decide
  rw [← Char.ofNat_toNat c]
  exact hall c.toNat h

theorem bytes_append (s t : List Char) : bytes (s ++ t) = bytes s ++ bytes t := List.flatMap_append

theorem length_bytes_ascii {s : List Char} (h : ∀ c ∈ s, c.toNat < 0x80) : (bytes s).length = s.length := by
  induction s with
  | nil => rfl
  | cons c s ih =>
    obtain ⟨hc, hs⟩ := List.forall_mem_cons.mp h
    have hone : c.utf8Size = 1 := Char.utf8Size_eq_one_iff.mpr (UInt32.le_iff_toNat_le.mpr (Nat.le_of_lt_succ hc))
    rw [bytes, List.flatMap_cons, List.length_append, String.length_utf8EncodeChar, hone, ← bytes, ih hs,
      List.length_cons, Nat.add_comm]

/-- What stands in front of the value has as many bytes in lower case. -/
theorem decode_drop_bytes {s s' t t' : List Char} (hs : ∀ c ∈ s, c.toNat < 0x80)
    (hs' : ∀ c ∈ s', c.toNat < 0x80) (hlength : s'.length = s.length) :
    decode ((bytes (s ++ t)).drop ((bytes (s' ++ t')).length - (bytes t').length)) = t := by
  have hbytes := decode_utf8 t []
  rw [bytes_append, bytes_append, List.length_append, Nat.add_sub_cancel, length_bytes_ascii hs', hlength,
    ← length_bytes_ascii hs, List.drop_left]
  rwa [List.append_nil, decode_nil, List.append_nil] at hbytes

/-- The lines in front still end with the end of a line. -/
theorem Around.lines_before (a : Around) : ∀ c ∈ (unfold a.before).getLast?, c = '\n' := by
  have hpass : ∀ (d : Char) (t : List Char), d ≠ '\n' →
      Text.replaceAll ['\r', '\n', d] [' '] (t ++ ['\n']) =
        Text.replaceAll ['\r', '\n', d] [' '] t ++ ['\n'] := by
    intro d t hd
    refine (Text.replaceAll_append (List.cons_ne_nil _ _) t fun u _ _ hp => ?_).trans
      (congrArg _ (Text.replaceAll_cons fun hp =>
        absurd (List.cons_prefix_cons.1 hp).1 (by decide)))
    -- an occurrence that takes the last character would end in it
    rcases List.prefix_concat_iff.1 hp with heq | hp
    · have hlast := congrArg List.getLast? heq
      rw [List.getLast?_concat] at hlast
      exact absurd (Option.some.inj hlast) hd
    · exact hp
  intro c hc
  rcases List.eq_nil_or_concat' a.before with hnil | ⟨t, d, hbefore⟩
  · rw [hnil] at hc
    cases hc
  · have hd := a.lines d (by rw [hbefore, List.getLast?_concat]; rfl)
    rw [hbefore, hd, unfold, hpass ' ' t (by decide), hpass '\t' _ (by decide),
      List.getLast?_concat] at hc
    exact (Option.some.inj hc).symm

/-- **The ids of a References header** are read, in order, however the header is written and
whatever is around it; and an id is the same as in a Message-ID, with or without brackets. -/
theorem parseReferencesHeader_raw (W : H.CharWise) (a : Around) (h : ReferencesHeader) :
    parseReferencesHeader H (String.ofList (a.raw h)) =
        h.refs.map (fun r => normalizeMsgID H (String.ofList r.1.text)) ∧
      ∀ id : MsgID, normalizeMsgID H (String.ofList id.text) =
        normalizeMsgID H (String.ofList ('<' :: (id.text ++ ['>']))) := by
  refine ⟨?_, fun id => (normalizeMsgID_id id).trans (normalizeMsgID_brackets id).symm⟩
  have hname : h.name.map W.lower ++ [':'] = "references:".toList := by
    rw [List.map_congr_left fun c hc => W.ascii c (h.mem_name hc).1, h.name_eq]
    rfl
  have hcolon : W.lower ':' = ':' := W.ascii ':' (by decide)
  generalize htail : h.value Gap.unfolded ++ unfold a.behind = tail
  have hnormalized : unfold (a.raw h) = unfold a.before ++ (h.name ++ ':' :: tail) := by
    rw [unfold_raw, htail]
  have hlower : (unfold (a.raw h)).map W.lower =
      (unfold a.before).map W.lower ++ ("references:".toList ++ tail.map W.lower) := by
    rw [hnormalized, List.map_append, List.map_append, List.map_cons, hcolon, ← hname,
      List.append_assoc]
    rfl
  have hafter : Text.after "references:".toList ((unfold (a.raw h)).map W.lower) =
      some (tail.map W.lower) := by
    rw [hlower]
    refine Text.after_append ?_ ?_ (by decide) _
    · rw [a.lower_before W]
      exact a.silent
    · intro c hc hmem
      rw [List.getLast?_map] at hc
      obtain ⟨d, hd, rfl⟩ := Option.map_eq_some_iff.1 hc
      rw [a.lines_before d hd, W.ascii '\n' (by decide)] at hmem
      revert hmem
      decide
  have hdrop : decode ((bytes (unfold (a.raw h))).drop
      ((bytes ((unfold (a.raw h)).map W.lower)).length - (bytes (tail.map W.lower)).length)) = tail := by
    rw [hlower, ← List.append_assoc, hnormalized, List.append_cons, ← List.append_assoc]
    refine decode_drop_bytes ?_ ?_ ?_
    · intro c hc
      rw [List.mem_append, List.mem_append, List.mem_singleton] at hc
      rcases hc with hc | hc | rfl
      · exact a.ascii_before c hc
      · exact (h.mem_name hc).1
      · decide
    · intro c hc
      rw [a.lower_before W, List.mem_append, List.mem_map] at hc
      rcases hc with ⟨d, hd, rfl⟩ | hc
      · exact toLower_ascii (a.ascii_before d hd)
      · exact (by simp : ∀ c ∈ "references:".toList, c.toNat < 0x80) c hc
    · rw [← hname]
      simp
  have hline : tail.takeWhile (fun c => !(c == '\r' || c == '\n')) = h.value Gap.unfolded := by
    have hvalue : ∀ c ∈ h.value Gap.unfolded, (!(c == '\r' || c == '\n')) = true := by
      intro c hc
      have hplain := h.value_plain c hc
      simp [hplain.1, hplain.2]
    rw [← htail, List.takeWhile_append_of_pos hvalue]
    have hstop : (unfold a.behind).takeWhile (fun c => !(c == '\r' || c == '\n')) = [] := by
      have hhead := unfold_behind a
      cases hb : unfold a.behind with
      | nil => rfl
      | cons c s =>
        rw [hb] at hhead
        rw [hhead c rfl]
        rfl
    rw [hstop, List.append_nil]
  have hids : parseReferencesHeader H (String.ofList (a.raw h)) = idsOf H (h.value Gap.unfolded) := by
    have hlowered : (H.toLower (String.ofList (unfold (a.raw h)))).toList =
        (unfold (a.raw h)).map W.lower := by
      rw [W.toLower_eq, String.toList_ofList, String.toList_ofList]
    rw [unfold] at hlowered hafter hdrop
    rw [parseReferencesHeader]
    simp only [String.toList_ofList, hlowered, hafter]
    rw [hdrop, hline, idsOf]
  rw [hids, ReferencesHeader.value]
  exact idsOf_refs h.refs fun c hc => (unfolded_gaps h.first c hc).1

end Ids

end E2Mail.Imap
