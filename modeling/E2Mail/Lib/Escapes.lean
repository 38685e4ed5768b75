import E2Mail.Lib.Text
import Mathlib.Data.List.TakeWhile

/-!
# Escapes

Texts in which some characters are written as words, and what is found in them.

* `replaceAll_flatMap` — one kind of word is taken back.
* `sides_of_separator` — what has no separator in it is on one side of the separator.
* `cutAll` — the parts between the occurrences of a piece, and `cutAll_append`.
* `trimBy_eq_self_iff` — when nothing is trimmed.
-/

namespace E2Mail.Lib.Escapes

open Text

variable {old new sep s t u : List Char} {p : Char → Bool}

/-! ## Words -/

/-- What has no occurrence in it is not replaced. -/
theorem replaceAll_eq_self (h : ¬old <:+: s) : replaceAll old new s = s := by
  induction s with
  | nil => rfl
  | cons c s ih =>
    rw [replaceAll_cons fun hp => h hp.isInfix, ih fun hi => h (hi.trans (List.suffix_cons c s).isInfix)]

/-- **One kind of word** is taken back: each character's word is the one that is replaced, or no
occurrence starts in it. -/
theorem replaceAll_flatMap {v v' : Char → List Char} (hold : old ≠ [])
    (h : ∀ c t, c :: t <:+ s → v c = old ∧ v' c = new ∨
      v' c = v c ∧ ∀ u, u ≠ [] → u <:+ v c → ¬old <+: u ++ t.flatMap v) :
    replaceAll old new (s.flatMap v) = s.flatMap v' := by
  induction s with
  | nil => rfl
  | cons c s ih =>
    have hrest := ih fun d t hd => h d t (hd.trans (List.suffix_cons c s))
    rw [List.flatMap_cons, List.flatMap_cons]
    obtain ⟨hword, hback⟩ | ⟨hsame, hno⟩ := h c s List.suffix_rfl
    · rw [hword, hback, replaceAll_append_self hold, hrest]
    · have hself : ¬old <:+: v c := by
        rintro ⟨before, after, heq⟩
        refine hno (old ++ after) ?_ ⟨before, by rw [← heq, List.append_assoc]⟩ ?_
        · exact fun hnil => hold (List.append_eq_nil_iff.mp hnil).1
        · rw [List.append_assoc]
          exact List.prefix_append old _
      rw [replaceAll_append hold _ fun u hne hu hp => absurd hp (hno u hne hu),
        replaceAll_eq_self hself, hrest, hsame]

/-- **Words behind one character** are taken back one by one: the others have another character in them, and
what follows the character itself is not taken for one. -/
theorem replaceAll_words {b x : Char} {v v' : Char → List Char}
    (h : ∀ c t, c :: t <:+ s → v c = [b, x] ∧ v' c = new ∨ v' c = v c ∧
      ((∃ y, y ≠ x ∧ v c = [b, y] ∧ (y = b → (t.flatMap v).head? ≠ some x)) ∨ ∃ d, d ≠ b ∧ v c = [d])) :
    replaceAll [b, x] new (s.flatMap v) = s.flatMap v' := by
  refine replaceAll_flatMap (List.cons_ne_nil b [x]) fun c t hct => ?_
  obtain hword | ⟨hsame, hother⟩ := h c t hct
  · exact .inl hword
  refine .inr ⟨hsame, fun u hne hu hp => ?_⟩
  obtain ⟨y, hy, hv, hhead⟩ | ⟨d, hd, hv⟩ := hother
  · rw [hv] at hu
    obtain rfl | hu := List.suffix_cons_iff.mp hu
    · obtain ⟨-, hp⟩ := List.cons_prefix_cons.mp hp
      exact hy (List.cons_prefix_cons.mp hp).1.symm
    · obtain rfl | hu := List.suffix_cons_iff.mp hu
      · obtain ⟨hb, rest, hrest⟩ := List.cons_prefix_cons.mp hp
        exact hhead hb.symm (congrArg List.head? hrest).symm
      · exact hne (List.suffix_nil.mp hu)
  · rw [hv] at hu
    obtain rfl | hu := List.suffix_cons_iff.mp hu
    · exact hd (List.cons_prefix_cons.mp hp).1.symm
    · exact hne (List.suffix_nil.mp hu)

/-- A character is written as it is, or as a word with nothing of the piece in it. -/
def Spells (sep : List Char) (v : Char → List Char) : Prop :=
  ∀ c, v c = [c] ∨ v c ≠ [] ∧ ∀ d ∈ v c, d ∉ sep

theorem prefix_flatMap {v : Char → List Char} (hv : Spells sep v) (h : t <+: s.flatMap v)
    (ht : ∀ c ∈ t, c ∈ sep) :
    t <+: s := by
  induction s generalizing t with
  | nil => exact h
  | cons c s ih =>
    cases t with
    | nil => exact List.nil_prefix
    | cons d t =>
      rw [List.flatMap_cons] at h
      obtain hc | ⟨hne, hc⟩ := hv c
      · rw [hc, List.singleton_append, List.cons_prefix_cons] at h
        exact List.cons_prefix_cons.mpr ⟨h.1, ih h.2 fun e he => ht e (List.mem_cons_of_mem d he)⟩
      · obtain ⟨e, w, hw⟩ := List.exists_cons_of_ne_nil hne
        rw [hw, List.cons_append, List.cons_prefix_cons] at h
        refine absurd (ht d List.mem_cons_self) (hc d ?_)
        rw [hw, h.1]
        exact List.mem_cons_self

/-! ## Separators -/

/-- What has no separator in it is on one side of it. -/
theorem sides_of_separator {c : Char} (hc : c ∉ sep) (h : sep <:+: s ++ c :: t) :
    sep <:+: s ∨ sep <:+: t := by
  obtain ⟨before, after, heq⟩ := h
  rw [List.append_assoc] at heq
  obtain ⟨u, rfl, hu⟩ | ⟨u, rfl, hu⟩ := List.append_eq_append_iff.mp heq
  · -- it begins in the first text
    obtain ⟨u', rfl, hu'⟩ | ⟨u', rfl, hu'⟩ := List.append_eq_append_iff.mp hu.symm
    · cases u' with
      | nil => exact .inl ⟨before, [], by simp⟩
      | cons d u' =>
        obtain ⟨rfl, -⟩ := List.cons.inj hu'
        exact absurd (List.mem_append_right _ List.mem_cons_self) hc
    · exact .inl ⟨before, u', by simp⟩
  · cases u with
    | nil =>
      rw [List.nil_append] at hu
      cases sep with
      | nil => exact .inl List.nil_infix
      | cons d sep =>
        obtain ⟨rfl, -⟩ := List.cons.inj hu
        exact absurd List.mem_cons_self hc
    | cons d u =>
      obtain ⟨rfl, rfl⟩ := List.cons.inj hu
      exact .inr ⟨u, after, by simp⟩

/-- An occurrence does not start where its first character is not. -/
theorem drop_of_absent {c : Char} (hc : c ∉ s) (h : c :: sep <:+: s ++ t) : c :: sep <:+: t := by
  induction s with
  | nil => exact h
  | cons d s ih =>
    obtain ⟨hd, hs⟩ := not_or.mp (mt List.mem_cons.mpr hc)
    rw [List.cons_append, List.infix_cons_iff, List.cons_prefix_cons] at h
    exact ih hs (h.resolve_left fun hp => hd hp.1)

/-- **What is spelled** has the piece in it only if the text has. -/
theorem mem_of_spelled {v : Char → List Char} (hv : Spells sep v) (hsep : sep ≠ [])
    (h : sep <:+: s.flatMap v) :
    sep <:+: s := by
  induction s with
  | nil => exact h
  | cons c s ih =>
    rw [List.flatMap_cons] at h
    obtain hc | ⟨-, hc⟩ := hv c
    · rw [hc, List.singleton_append, List.infix_cons_iff] at h
      obtain hp | hi := h
      · have hwhole : sep <+: (c :: s).flatMap v := by rwa [List.flatMap_cons, hc, List.singleton_append]
        exact (prefix_flatMap hv hwhole fun e he => he).isInfix
      · exact (ih hi).trans (List.suffix_cons c s).isInfix
    · obtain ⟨d, sep, rfl⟩ := List.exists_cons_of_ne_nil hsep
      have hd : d ∉ v c := fun hd => hc d hd List.mem_cons_self
      exact (ih (drop_of_absent hd h)).trans (List.suffix_cons c s).isInfix

/-- The parts between the occurrences of a piece; the first number of characters is part of one. -/
def cutFrom (sep : List Char) : Nat → List Char → List (List Char)
  | _, [] => [[]]
  | skip + 1, _ :: s => cutFrom sep skip s
  | 0, c :: s =>
    if sep.isPrefixOf (c :: s) then [] :: cutFrom sep (sep.length - 1) s
    else
      match cutFrom sep 0 s with
      | [] => [[c]]
      | part :: parts => (c :: part) :: parts

/-- `strings.Split`. -/
def cutAll (sep s : List Char) : List (List Char) := cutFrom sep 0 s

theorem cutFrom_drop (skip : Nat) (s : List Char) : cutFrom sep skip s = cutFrom sep 0 (s.drop skip) := by
  induction s generalizing skip with
  | nil => cases skip <;> rfl
  | cons c s ih =>
    cases skip with
    | zero => rfl
    | succ skip => exact ih skip

theorem cutAll_self_append (h : sep ≠ []) (s : List Char) : cutAll sep (sep ++ s) = [] :: cutAll sep s := by
  obtain ⟨c, sep, rfl⟩ := List.exists_cons_of_ne_nil h
  have hprefix : (c :: sep).isPrefixOf (c :: (sep ++ s)) = true :=
    List.isPrefixOf_iff_prefix.2 (List.prefix_append (c :: sep) s)
  rw [cutAll, List.cons_append, cutFrom, if_pos hprefix, cutFrom_drop, List.length_cons, Nat.add_sub_cancel,
    List.drop_left]
  rfl

theorem cutAll_cons {c : Char} (h : ¬sep <+: c :: s) : cutAll sep (c :: s) =
    match cutAll sep s with
    | [] => [[c]]
    | part :: parts => (c :: part) :: parts := by
  rw [cutAll, cutFrom, if_neg fun hp => h (List.isPrefixOf_iff_prefix.1 hp)]
  rfl

theorem cutAll_of_absent (h : ¬sep <:+: s) : cutAll sep s = [s] := by
  induction s with
  | nil => rfl
  | cons c s ih =>
    rw [cutAll_cons fun hp => h hp.isInfix, ih fun hi => h (hi.trans (List.suffix_cons c s).isInfix)]

/-- The first part ends where the first piece starts. -/
theorem cutAll_append {c : Char} (hc : c ∉ sep) (h : ¬c :: sep <:+: s) (t : List Char) :
    cutAll (c :: sep) (s ++ (c :: sep) ++ t) = s :: cutAll (c :: sep) t := by
  induction s with
  | nil => exact cutAll_self_append (List.cons_ne_nil c sep) t
  | cons d s ih =>
    have hrest := ih fun hi => h (hi.trans (List.suffix_cons d s).isInfix)
    have hno : ¬c :: sep <+: d :: (s ++ (c :: sep) ++ t) := by
      intro hp
      have hsplit : d :: (s ++ (c :: sep) ++ t) = (d :: s) ++ (c :: (sep ++ t)) := by simp
      rw [hsplit] at hp
      refine h (prefix_of_prefix_append ?_ (List.cons_ne_nil d s) hp).isInfix
      intro e he
      obtain rfl : c = e := by simpa using he
      exact hc
    rw [List.cons_append, List.cons_append, cutAll_cons hno, hrest]

/-! ## Ends -/

theorem length_trimBy_le (p : Char → Bool) (s : List Char) : (trimBy p s).length ≤ s.length := by
  rw [trimBy, List.length_reverse]
  refine Nat.le_trans (List.dropWhile_sublist p).length_le ?_
  rw [List.length_reverse]
  exact (List.dropWhile_sublist p).length_le

theorem trimBy_cons {c : Char} (hc : p c = false) (s : List Char) :
    trimBy p (c :: s) = c :: (s.reverse.dropWhile p).reverse :=
  trimBy_append (s := [c]) (List.cons_ne_nil c []) (by simpa using hc) (by simpa using hc) s

/-- **Nothing is cut off** exactly if there is nothing at the ends. -/
theorem trimBy_eq_self_iff :
    trimBy p s = s ↔ (∀ c ∈ s.head?, p c = false) ∧ ∀ c ∈ s.getLast?, p c = false := by
  refine ⟨fun h => ⟨fun c hc => ?_, fun c hc => ?_⟩, fun ⟨hhead, hlast⟩ => ?_⟩
  · by_contra hp
    cases s with
    | nil => cases hc
    | cons d s =>
      obtain rfl : d = c := by simpa using hc
      have hshort : trimBy p (d :: s) = trimBy p s :=
        trimBy_append_left (t := [d]) (by simpa using hp) s
      have hle := length_trimBy_le p s
      rw [← hshort, h, List.length_cons] at hle
      omega
  · obtain ⟨t, ht⟩ := List.getLast?_eq_some_iff.mp hc
    exact last_trimBy (h.trans ht)
  · by_cases hnil : s = []
    · rw [hnil]
      rfl
    · have happend := trimBy_append hnil hhead hlast []
      rwa [List.append_nil, List.reverse_nil, List.dropWhile_nil, List.reverse_nil,
        List.append_nil] at happend

/-- What leaves nothing was nothing else. -/
theorem eq_true_of_trimBy_eq_nil (h : trimBy p s = []) : ∀ c ∈ s, p c = true := by
  have hback : (s.dropWhile p).reverse.dropWhile p = [] := List.reverse_eq_nil_iff.mp h
  have hall := List.dropWhile_eq_nil_iff.mp hback
  have hfront : s.dropWhile p = [] := by
    by_contra hne
    obtain ⟨c, t, hct⟩ := List.exists_cons_of_ne_nil hne
    have hc := head?_dropWhile (p := p) s c (by rw [hct]; rfl)
    have hin : c ∈ (s.dropWhile p).reverse := by simp [hct]
    rw [hall c hin] at hc
    cases hc
  exact List.dropWhile_eq_nil_iff.mp hfront

theorem trimSuffix_append (suf s : List Char) : trimSuffix suf (s ++ suf) = s := by
  rw [trimSuffix, if_pos (List.isSuffixOf_iff_suffix.mpr (List.suffix_append s suf)), List.length_append,
    Nat.add_sub_cancel, List.take_left]

end E2Mail.Lib.Escapes
