import E2Mail.Sieve.Lockstep
import Mathlib.Data.List.Infix

/-!
# The list of scripts

A server lists its scripts one a line: the name in quotes, and `ACTIVE` after the active one. The
client looks for the keyword in the whole line, and takes no name for a script that reads like it.

* `quotedLine` — what the client sees of a line;
* `extractQuoted_quotedLine` — the name is read back;
* `isSome_after_quotedLine` — when the keyword is found;
* `foldl_addScript` — the scripts are collected by their names;
* `listScripts_iff` — when the list is the server's.
-/

namespace E2Mail.ManageSieve

open Lib Lib.Text
open Backend (isSpace)

variable {L : TextLib}

/-! ## What the server says -/

/-- A text in UTF-8. -/
def utf8Octets (s : Text) : Octets := s.flatMap String.utf8EncodeChar

/-- A name that a quoted string can have. -/
def Quotable (name : Text) : Prop := ∀ c ∈ name, c.toNat ≠ 0 ∧ c.toNat ≠ 10 ∧ c.toNat ≠ 13

/-- The line of a script. -/
def ScriptInfo.row (s : ScriptInfo) : Row :=
  if s.active then .active (.quoted (utf8Octets s.name)) else .single (.quoted (utf8Octets s.name))

/-- The answer of a server with these scripts. -/
def listing (scripts : List ScriptInfo) (st : Status) : Exchange :=
  ⟨.listScripts, scripts.map ScriptInfo.row, st⟩

theorem conforms_name {name : Text} (h : Quotable name) : (Str.quoted (utf8Octets name)).Conforms := by
  intro b hb
  obtain ⟨c, hc, hb⟩ := List.mem_flatMap.1 hb
  have hchar := h c hc
  have hbc := mem_utf8EncodeChar hb
  refine ⟨?_, ?_, ?_⟩ <;>
  · rintro rfl
    simp at hbc
    omega

/-- Such an answer is one of the protocol. -/
theorem conforms_listing {scripts : List ScriptInfo} {st : Status} (hst : st.Conforms)
    (hnames : ∀ s ∈ scripts, Quotable s.name) : (listing scripts st).Conforms := by
  refine ⟨trivial, hst, fun row hrow => ?_⟩
  obtain ⟨s, hs, rfl⟩ := List.mem_map.1 hrow
  refine ⟨.quoted (utf8Octets s.name), conforms_name (hnames s hs), ?_⟩
  rw [ScriptInfo.row]
  split
  · exact .inr rfl
  · exact .inl rfl

/-! ## A line -/

/-- The characters that get a backslash. -/
def IsSpecial (c : Char) : Prop := c = '"' ∨ c = '\\'

instance : DecidablePred IsSpecial := fun c => inferInstanceAs (Decidable (c = '"' ∨ c = '\\'))

/-- A quoted text with its backslashes. -/
def escapeText (s : Text) : Text := s.flatMap fun c => if IsSpecial c then ['\\', c] else [c]

/-- What the client sees of the line of a script. -/
def quotedLine (s : ScriptInfo) : Text :=
  '"' :: escapeText s.name ++ '"' :: if s.active then " ACTIVE".toList else []

theorem escapeQuoted_of_not_mem {s : Octets} (h : ∀ b ∈ s, b ≠ 34 ∧ b ≠ 92) : escapeQuoted s = s := by
  induction s with
  | nil => rfl
  | cons b s ih =>
    obtain ⟨hb, hs⟩ := List.forall_mem_cons.1 h
    rw [escapeQuoted, List.flatMap_cons, if_neg (not_or.2 hb), ← escapeQuoted, ih hs]
    rfl

/-- No octet of another character gets a backslash. -/
theorem not_special_octets {c : Char} (hc : ¬ IsSpecial c) :
    ∀ b ∈ String.utf8EncodeChar c, b ≠ 34 ∧ b ≠ 92 := by
  intro b hb
  rw [← not_or]
  intro hquote
  have hbc := mem_utf8EncodeChar hb
  refine hc ?_
  obtain rfl | rfl := hquote
  · left
    have hnat : c.toNat = '"'.toNat := by
      simp at hbc
      exact hbc.symm
    exact Char.toNat_inj.1 hnat
  · right
    have hnat : c.toNat = '\\'.toNat := by
      simp at hbc
      exact hbc.symm
    exact Char.toNat_inj.1 hnat

/-- The octets that get a backslash are the characters that do. -/
theorem escapeQuoted_utf8 (s : Text) : escapeQuoted (utf8Octets s) = utf8Octets (escapeText s) := by
  induction s with
  | nil => rfl
  | cons c s ih =>
    have hsplit : escapeQuoted (utf8Octets (c :: s)) =
        escapeQuoted (String.utf8EncodeChar c) ++ escapeQuoted (utf8Octets s) := List.flatMap_append
    have hmerge : utf8Octets (escapeText (c :: s)) =
        utf8Octets (escapeText [c]) ++ utf8Octets (escapeText s) := by
      rw [escapeText, List.flatMap_cons, ← escapeText, utf8Octets, List.flatMap_append]
      simp [escapeText, utf8Octets]
    rw [hsplit, hmerge, ih]
    congr 1
    by_cases hc : IsSpecial c
    · obtain rfl | rfl := hc
      · rfl
      · rfl
    · have hkept : escapeText [c] = [c] := by
        rw [escapeText, List.flatMap_singleton, if_neg hc]
      rw [escapeQuoted_of_not_mem (not_special_octets hc), hkept, utf8Octets, List.flatMap_singleton]

theorem decode_row (s : ScriptInfo) : decode s.row.body = quotedLine s := by
  have hquote : (34 : UInt8) < 0x80 := by decide
  have hname : ∀ t, decode (34 :: escapeQuoted (utf8Octets s.name) ++ 34 :: t) =
      '"' :: escapeText s.name ++ '"' :: decode t := by
    intro t
    rw [escapeQuoted_utf8, List.cons_append, decode_cons hquote, utf8Octets, decode_utf8,
      decode_cons hquote]
    rfl
  rw [ScriptInfo.row, quotedLine]
  cases s.active with
  | false => exact hname []
  | true =>
    have hkeyword : decode [32, 65, 67, 84, 73, 86, 69] = " ACTIVE".toList := by decide
    have hbody : (Row.active (.quoted (utf8Octets s.name))).body =
        34 :: escapeQuoted (utf8Octets s.name) ++ 34 :: [32, 65, 67, 84, 73, 86, 69] := by
      simp [Row.body, Str.octets]
    rw [if_pos rfl, if_pos rfl, hbody, hname, hkeyword]

/-- There is nothing to trim. -/
theorem trimmed_row (s : ScriptInfo) : trimmed s.row.body = quotedLine s := by
  have hlast : ∀ c ∈ (quotedLine s).getLast?, isSpace c = false := by
    rw [quotedLine, List.getLast?_append_cons]
    cases s.active with
    | false => simp [isSpace]
    | true => simp [isSpace]
  have hhead : ∀ c ∈ (quotedLine s).head?, isSpace c = false := by
    intro c hc
    cases hc
    decide
  have hne : quotedLine s ≠ [] := List.cons_ne_nil _ _
  have htrim := trimBy_append hne hhead hlast []
  rw [List.reverse_nil, List.dropWhile_nil, List.reverse_nil, List.append_nil] at htrim
  rw [trimmed, decode_row, trimSpace, htrim]

/-- **The name** is read back. -/
theorem extractQuoted_quotedLine (s : ScriptInfo) : extractQuoted (quotedLine s) = [s.name] := by
  have hquoted : ∀ name cur rest : Text,
      extractFrom true false cur (escapeText name ++ '"' :: rest) =
        (cur ++ name) :: extractFrom false false [] rest := by
    intro name
    induction name with
    | nil =>
      intro cur rest
      rw [List.append_nil]
      rfl
    | cons c name ih =>
      intro cur rest
      rw [escapeText, List.flatMap_cons, ← escapeText, List.append_assoc]
      by_cases hc : IsSpecial c
      · rw [if_pos hc, List.append_cons cur c name]
        exact ih (cur ++ [c]) rest
      · obtain ⟨hquote, hslash⟩ := not_or.1 hc
        rw [if_neg hc, List.singleton_append, extractFrom, if_neg fun h => hslash h.1,
          if_neg hquote, if_pos rfl, ih, List.append_assoc, List.singleton_append]
  have hrest : extractFrom false false [] (if s.active then " ACTIVE".toList else []) = [] := by
    cases s.active <;> decide
  have hline := hquoted s.name [] (if s.active then " ACTIVE".toList else [])
  rw [List.nil_append, hrest] at hline
  exact hline

/-! ## The keyword -/

theorem after_isSome_iff {piece s : Text} (hne : piece ≠ []) :
    (after piece s).isSome ↔ piece <:+: s := by
  induction s with
  | nil =>
    rw [Text.after, if_neg (by simpa using hne)]
    simp [hne]
  | cons c s ih =>
    rw [Text.after, List.infix_cons_iff, ← ih, ← List.isPrefixOf_iff_prefix]
    split
    · simp_all
    · simp_all

section Keyword

variable {p : Text} {c : Char}

theorem toUpper_special (hL : UpperASCII L) (hc : IsSpecial c) : L.toUpper c = c := by
  obtain rfl | rfl := hc
  · exact hL _ (by decide)
  · exact hL _ (by decide)

theorem toUpper_escapeText_special (hL : UpperASCII L) (hc : IsSpecial c) (name rest : Text) :
    toUpper L (escapeText (c :: name) ++ rest) =
      '\\' :: c :: toUpper L (escapeText name ++ rest) := by
  rw [escapeText, List.flatMap_cons, if_pos hc, ← escapeText]
  change L.toUpper '\\' :: L.toUpper c :: toUpper L (escapeText name ++ rest) = _
  rw [toUpper_special hL hc, toUpper_special hL (.inr rfl)]

theorem toUpper_escapeText_plain (hc : ¬ IsSpecial c) (name rest : Text) :
    toUpper L (escapeText (c :: name) ++ rest) =
      L.toUpper c :: toUpper L (escapeText name ++ rest) := by
  rw [escapeText, List.flatMap_cons, if_neg hc, ← escapeText]
  rfl

theorem not_prefix_special (hp : ∀ c ∈ p, ¬ IsSpecial c) (hne : p ≠ []) (hc : IsSpecial c)
    (t : Text) : ¬ p <+: c :: t := by
  intro hpre
  obtain ⟨d, p, rfl⟩ := List.exists_cons_of_ne_nil hne
  obtain rfl := (List.cons_prefix_cons.1 hpre).1
  exact hp _ List.mem_cons_self hc

/-- What has no such character begins a text with its backslashes if it begins the text. -/
theorem prefix_escapeText (hL : UpperASCII L) (hp : ∀ c ∈ p, ¬ IsSpecial c) (name rest : Text) :
    p <+: toUpper L (escapeText name ++ '"' :: rest) ↔ p <+: toUpper L name := by
  induction name generalizing p with
  | nil =>
    change p <+: L.toUpper '"' :: toUpper L rest ↔ p <+: []
    rw [toUpper_special hL (.inl rfl), List.prefix_nil]
    constructor
    · intro hpre
      by_contra hne
      exact not_prefix_special hp hne (.inl rfl) _ hpre
    · rintro rfl
      exact List.nil_prefix
  | cons c name ih =>
    cases p with
    | nil => exact iff_of_true List.nil_prefix List.nil_prefix
    | cons d p =>
      have hne : d :: p ≠ [] := List.cons_ne_nil d p
      change _ ↔ d :: p <+: L.toUpper c :: toUpper L name
      by_cases hc : IsSpecial c
      · rw [toUpper_escapeText_special hL hc, toUpper_special hL hc]
        exact iff_of_false (not_prefix_special hp hne (.inr rfl) _) (not_prefix_special hp hne hc _)
      · rw [toUpper_escapeText_plain hc, List.cons_prefix_cons, List.cons_prefix_cons,
          ih (List.forall_mem_cons.1 hp).2]

/-- And it stands in one if it stands in the other. -/
theorem infix_escapeText (hL : UpperASCII L) (hp : ∀ c ∈ p, ¬ IsSpecial c) (hne : p ≠ [])
    (name : Text) : p <:+: toUpper L (escapeText name ++ ['"']) ↔ p <:+: toUpper L name := by
  induction name with
  | nil =>
    change p <:+: [L.toUpper '"'] ↔ p <:+: []
    rw [toUpper_special hL (.inl rfl), List.infix_cons_iff]
    exact or_iff_right (not_prefix_special hp hne (.inl rfl) _)
  | cons c name ih =>
    change _ ↔ p <:+: L.toUpper c :: toUpper L name
    by_cases hc : IsSpecial c
    · have hnot : ∀ {d : Char}, IsSpecial d → ∀ {t : Text}, p <:+: d :: t ↔ p <:+: t := fun hd t =>
        List.infix_cons_iff.trans (or_iff_right (not_prefix_special hp hne hd t))
      rw [toUpper_escapeText_special hL hc, toUpper_special hL hc, hnot (.inr rfl), hnot hc,
        hnot hc, ih]
    · have hpre := prefix_escapeText hL hp (c :: name) []
      rw [toUpper_escapeText_plain hc] at hpre ⊢
      rw [List.infix_cons_iff, List.infix_cons_iff, hpre, ih]
      rfl

end Keyword

/-- **The keyword is found** after the name, or in it. -/
theorem isSome_after_quotedLine (hL : UpperASCII L) (s : ScriptInfo) :
    (after "ACTIVE".toList (toUpper L (quotedLine s))).isSome = true ↔
      s.active = true ∨ "ACTIVE".toList <:+: toUpper L s.name := by
  rw [after_isSome_iff (by decide), quotedLine]
  have hplain : ∀ c ∈ "ACTIVE".toList, ¬ IsSpecial c := by
    have hall : ∀ c ∈ "ACTIVE".toList, c ≠ '"' ∧ c ≠ '\\' := by simp
    exact fun c hc h => h.elim (hall c hc).1 (hall c hc).2
  have hquote : L.toUpper '"' = '"' := toUpper_special hL (.inl rfl)
  cases s.active with
  | false =>
    change _ <:+: L.toUpper '"' :: toUpper L (escapeText s.name ++ ['"']) ↔ _
    rw [hquote, List.infix_cons_iff, infix_escapeText hL hplain (by decide),
      or_iff_right (not_prefix_special hplain (by decide) (.inl rfl) _)]
    simp
  | true =>
    refine iff_of_true ?_ (.inl rfl)
    have hkeyword : toUpper L "ACTIVE".toList = "ACTIVE".toList := by
      have hall : ∀ c ∈ "ACTIVE".toList, c.toNat < 0x80 ∧ c.toUpper = c := by simp
      exact (List.map_congr_left fun c hc => (hL c (hall c hc).1).trans (hall c hc).2).trans
        (List.map_id _)
    refine List.IsSuffix.isInfix ⟨toUpper L ('"' :: escapeText s.name ++ ['"', ' ']), ?_⟩
    nth_rewrite 1 [← hkeyword]
    rw [toUpper, toUpper, toUpper, ← List.map_append, List.append_assoc]
    rfl

/-! ## The scripts -/

/-- The scripts of a line. -/
theorem scriptsOf_quotedLine (hL : UpperASCII L) (s : ScriptInfo) :
    ∃ found : Bool, (found = true ↔ s.active = true ∨ "ACTIVE".toList <:+: toUpper L s.name) ∧
      scriptsOf L (quotedLine s) =
        if L.equalFold s.name "ACTIVE".toList then [] else [⟨s.name, found⟩] := by
  refine ⟨_, isSome_after_quotedLine hL s, ?_⟩
  rw [scriptsOf, extractQuoted_quotedLine]
  rw [List.filter_singleton]
  cases L.equalFold s.name "ACTIVE".toList with
  | false => rfl
  | true => rfl

theorem names_addScript (dedup : List ScriptInfo) (s : ScriptInfo) :
    (addScript dedup s).map (·.name) =
      if s.name ∈ dedup.map (·.name) then dedup.map (·.name) else dedup.map (·.name) ++ [s.name] := by
  have hany : dedup.any (·.name == s.name) = true ↔ s.name ∈ dedup.map (·.name) := by
    simp
  rw [addScript]
  by_cases h : s.name ∈ dedup.map (·.name)
  · rw [if_pos (hany.2 h), if_pos h, List.map_map]
    refine List.map_congr_left fun d _ => ?_
    dsimp only [Function.comp_apply]
    split
    · rfl
    · rfl
  · rw [if_neg (mt hany.1 h), if_neg h, List.map_append]
    rfl

/-- No name is there twice. -/
theorem nodup_foldl_addScript {dedup : List ScriptInfo} (h : (dedup.map (·.name)).Nodup)
    (scripts : List ScriptInfo) : ((scripts.foldl addScript dedup).map (·.name)).Nodup := by
  induction scripts generalizing dedup with
  | nil => exact h
  | cons s scripts ih =>
    refine ih ?_
    rw [names_addScript]
    split
    · exact h
    · rename_i hs
      exact List.nodup_append_comm.1 (List.nodup_cons.2 ⟨hs, h⟩)

/-- No name is lost. -/
theorem mem_foldl_addScript {dedup scripts : List ScriptInfo} {name : Text} :
    name ∈ (scripts.foldl addScript dedup).map (·.name) ↔
      name ∈ dedup.map (·.name) ∨ name ∈ scripts.map (·.name) := by
  induction scripts generalizing dedup with
  | nil => simp
  | cons s scripts ih =>
    rw [List.foldl_cons, ih, names_addScript, List.map_cons, List.mem_cons]
    split
    · rename_i hs
      constructor
      · exact Or.imp_right .inr
      · rintro (h | rfl | h)
        · exact .inl h
        · exact .inl hs
        · exact .inr h
    · rw [List.mem_append, List.mem_singleton, or_assoc]

/-- Scripts with different names are kept as they are. -/
theorem foldl_addScript {dedup scripts : List ScriptInfo}
    (h : ((dedup ++ scripts).map (·.name)).Nodup) :
    scripts.foldl addScript dedup = dedup ++ scripts := by
  induction scripts generalizing dedup with
  | nil => simp
  | cons s scripts ih =>
    have hs : s.name ∉ dedup.map (·.name) := by
      intro hs
      rw [List.map_append, List.nodup_append] at h
      exact h.2.2 _ hs _ List.mem_cons_self rfl
    have hnew : addScript dedup s = dedup ++ [s] := by
      rw [addScript, if_neg]
      simpa using hs
    rw [List.foldl_cons, hnew, ih]
    · rw [List.append_assoc]
      rfl
    · rwa [List.append_assoc]

/-! ## The list -/

variable {scripts : List ScriptInfo} {st : Status}

theorem not_mem_row {s : ScriptInfo} (hname : Quotable s.name) : 10 ∉ s.row.body ++ [13] := by
  have hstr : 10 ∉ (Str.quoted (utf8Octets s.name)).octets :=
    (mem_octets_str (conforms_name hname)).not.2 id
  rw [List.mem_append, not_or]
  refine ⟨?_, by decide⟩
  rw [ScriptInfo.row]
  split
  · rw [Row.body, List.mem_append, not_or]
    exact ⟨hstr, by decide⟩
  · exact hstr

theorem rawLines_listing (hnames : ∀ s ∈ scripts, Quotable s.name) :
    rawLines (scripts.map ScriptInfo.row) = scripts.map fun s => s.row.body ++ [13] := by
  induction scripts with
  | nil => rfl
  | cons s scripts ih =>
    obtain ⟨hs, hnames⟩ := List.forall_mem_cons.1 hnames
    rw [List.map_cons, rawLines, List.flatMap_cons, ← rawLines, ih hnames,
      pieces_of_not_mem (not_mem_row hs)]
    rfl

theorem dataLines_listing :
    dataLines (scripts.map fun s => s.row.body ++ [13]) = scripts.map quotedLine := by
  have hline : ∀ s : ScriptInfo, trimmed (dropCR (s.row.body ++ [13])) = quotedLine s := fun s => by
    rw [dropCR_append, trimmed_row]
  rw [dataLines, List.map_map, List.filter_eq_self.2]
  · exact List.map_congr_left fun s _ => hline s
  · intro line hmem
    obtain ⟨s, -, rfl⟩ := List.mem_map.1 hmem
    rw [Function.comp_apply, hline]
    rfl

/-- **The list** as the client has it. -/
theorem listScripts_eq (hL : UpperASCII L) (hst : st.Conforms) (hok : st.word = .ok)
    (hnames : ∀ s ∈ scripts, Quotable s.name) :
    (((Link.mk [] []).expect (listing scripts st)).listScripts L).2 =
      .ok ((scripts.flatMap fun s => scriptsOf L (quotedLine s)).foldl addScript []) := by
  obtain ⟨line, rest, hoctets, hfree, -, hbegins⟩ := status_line hL hst
  rw [hok] at hbegins
  have hfinal := name_final (by decide) hbegins
  have hdata : ∀ line ∈ scripts.map (fun s => s.row.body ++ [13]),
      10 ∉ line ∧ isFinalLine L (trimmed (dropCR line)) = false := by
    intro line hline
    obtain ⟨s, hs, rfl⟩ := List.mem_map.1 hline
    refine ⟨not_mem_row (hnames s hs), ?_⟩
    rw [dropCR_append, trimmed_row]
    exact not_final_of_head hL (.inl rfl) _
  have hread := readUntilFinal_eq (L := L) rest [] (fun l hl => (hdata l hl).1)
    (fun l hl => (hdata l hl).2) hfree hfinal
  rw [finalResult, isFailureLine_of_ok hbegins, if_neg Bool.false_ne_true, dataLines_listing,
    ← rawLines_listing hnames, ← octets_rows, ← hoctets] at hread
  have hturn : ((Link.mk [] []).expect (listing scripts st)).turn =
      ⟨(scripts.map ScriptInfo.row).flatMap Row.octets ++ st.octets, []⟩ := rfl
  rw [Link.listScripts, Link.command, hturn, hread]
  change Except.ok (((scripts.map quotedLine).flatMap (scriptsOf L)).foldl addScript []) = _
  rw [List.flatMap_map]

/-- **The list is the server's** exactly when no name is there twice, none reads like the keyword,
and none of a script that is not active has it in it. -/
theorem listScripts_iff (hL : UpperASCII L) (hst : st.Conforms) (hok : st.word = .ok)
    (hnames : ∀ s ∈ scripts, Quotable s.name) :
    (((Link.mk [] []).expect (listing scripts st)).listScripts L).2 = .ok scripts ↔
      (scripts.map (·.name)).Nodup ∧
        ∀ s ∈ scripts, L.equalFold s.name "ACTIVE".toList = false ∧
          (s.active = false → ¬ "ACTIVE".toList <:+: toUpper L s.name) := by
  rw [listScripts_eq hL hst hok hnames, Except.ok.injEq]
  have hline := fun s : ScriptInfo => scriptsOf_quotedLine hL s
  choose found hfound hscripts using hline
  -- as long as no name reads like the keyword, each line is one script
  have hall (hfold : ∀ s ∈ scripts, L.equalFold s.name "ACTIVE".toList = false) :
      (scripts.flatMap fun s => scriptsOf L (quotedLine s)) =
        scripts.map fun s => ⟨s.name, found s⟩ := by
    rw [List.map_eq_flatMap]
    refine List.flatMap_congr fun s hs => ?_
    rw [hscripts, hfold s hs]
    rfl
  have hnamesOf : (scripts.map fun s => (⟨s.name, found s⟩ : ScriptInfo)).map (·.name) =
      scripts.map (·.name) := by
    rw [List.map_map]
    rfl
  constructor
  · intro hlist
    have hnodup : (scripts.map (·.name)).Nodup := by
      have hnone : (([] : List ScriptInfo).map (·.name)).Nodup := List.nodup_nil
      rw [← hlist]
      exact nodup_foldl_addScript hnone _
    have hfold : ∀ s ∈ scripts, L.equalFold s.name "ACTIVE".toList = false := by
      intro s hs
      have hmem : s.name ∈ scripts.map (·.name) := List.mem_map_of_mem hs
      rw [← hlist, mem_foldl_addScript] at hmem
      obtain hmem | hmem := hmem
      · cases hmem
      · obtain ⟨t, ht, hname⟩ := List.mem_map.1 hmem
        obtain ⟨u, -, hu⟩ := List.mem_flatMap.1 ht
        rw [hscripts] at hu
        split at hu
        · cases hu
        · rename_i hnot
          rw [List.mem_singleton.1 hu] at hname
          rw [← hname]
          exact Bool.eq_false_iff.2 hnot
    rw [hall hfold, foldl_addScript (by rw [List.nil_append, hnamesOf]; exact hnodup),
      List.nil_append] at hlist
    refine ⟨hnodup, fun s hs => ⟨hfold s hs, fun hinactive hin => ?_⟩⟩
    have hsame : (⟨s.name, found s⟩ : ScriptInfo) = s :=
      List.map_inj_left.1 (hlist.trans (List.map_id _).symm) s hs
    have htrue := (hfound s).2 (.inr hin)
    rw [← hsame] at hinactive
    exact Bool.false_ne_true (hinactive.symm.trans htrue)
  · rintro ⟨hnodup, hplain⟩
    rw [hall fun s hs => (hplain s hs).1,
      foldl_addScript (by rw [List.nil_append, hnamesOf]; exact hnodup), List.nil_append]
    refine (List.map_congr_left fun s hs => ?_).trans (List.map_id _)
    have hsame : found s = s.active := by
      rw [Bool.eq_iff_iff, hfound]
      refine ⟨fun h => h.elim id fun hin => ?_, .inl⟩
      by_contra hinactive
      exact (hplain s hs).2 (Bool.eq_false_iff.2 hinactive) hin
    rw [hsame]
    rfl

/-- `OK` and nothing more. -/
def plainOK : Status := ⟨.ok, [79, 75], none, none⟩

theorem conforms_plainOK : plainOK.Conforms :=
  ⟨by simp [plainOK], by decide, by simp [plainOK], by simp [plainOK]⟩

/-- Two scripts, and the second is active. -/
theorem twoScripts_listed :
    (((Link.mk [] []).expect (listing [⟨"old".toList, false⟩, ⟨"new".toList, true⟩]
      plainOK)).listScripts asciiText).2 = .ok [⟨"old".toList, false⟩, ⟨"new".toList, true⟩] := by
  have hnames : ∀ s ∈ ([⟨"old".toList, false⟩, ⟨"new".toList, true⟩] : List ScriptInfo),
      ∀ c ∈ s.name, c.toNat ≠ 0 ∧ c.toNat ≠ 10 ∧ c.toNat ≠ 13 := by simp
  refine (listScripts_iff (fun _ _ => rfl) conforms_plainOK rfl hnames).2 ⟨by decide, ?_⟩
  decide

/-- **A script with the keyword in its name** is listed as active, next to the one that is. -/
theorem inactive_listed_active :
    ¬ ∀ scripts : List ScriptInfo, (∀ s ∈ scripts, Quotable s.name) →
      (scripts.filter (·.active)).length ≤ 1 →
      (((Link.mk [] []).expect (listing scripts plainOK)).listScripts asciiText).2 = .ok scripts := by
  intro hall
  have hnames : ∀ s ∈ ([⟨"inactive".toList, false⟩] : List ScriptInfo),
      ∀ c ∈ s.name, c.toNat ≠ 0 ∧ c.toNat ≠ 10 ∧ c.toNat ≠ 13 := by simp
  have hlist := hall [⟨"inactive".toList, false⟩] hnames (by decide)
  exact absurd hlist (by decide)

/-- And one with just the keyword for a name is not listed. -/
example : (((Link.mk [] []).expect (listing [⟨"active".toList, true⟩] plainOK)).listScripts
    asciiText).2 = .ok [] := by
  decide

end E2Mail.ManageSieve
