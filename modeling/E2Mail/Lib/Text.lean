import Mathlib.Data.List.Basic

/-!
# Text

The operations on strings that a program takes from the standard library of its
language, on lists of characters: cutting off ends, looking for a piece, replacing
and splitting.
-/

namespace E2Mail.Lib.Text

/-- Cuts off what the predicate holds of at both ends. -/
def trimBy (p : Char → Bool) (s : List Char) : List Char :=
  ((s.dropWhile p).reverse.dropWhile p).reverse

/-- `s` without the prefix, if it has it. -/
def trimPrefix (pre s : List Char) : List Char :=
  if pre.isPrefixOf s then s.drop pre.length else s

/-- `s` without the suffix, if it has it. -/
def trimSuffix (suf s : List Char) : List Char :=
  if suf.isSuffixOf s then s.take (s.length - suf.length) else s

/-- What comes after the first occurrence of a piece. -/
def after (piece : List Char) : List Char → Option (List Char)
  | [] => if piece.isEmpty then some [] else none
  | c :: s =>
    if piece.isPrefixOf (c :: s) then some ((c :: s).drop piece.length) else after piece s

/-- Replaces the occurrences of a piece that do not overlap, from the left; `skip`
characters are part of an occurrence already replaced. -/
def replaceFrom (old new : List Char) : Nat → List Char → List Char
  | _, [] => []
  | skip + 1, _ :: s => replaceFrom old new skip s
  | 0, c :: s =>
    if old.isPrefixOf (c :: s) then new ++ replaceFrom old new (old.length - 1) s
    else c :: replaceFrom old new 0 s

/-- Replaces all occurrences of a nonempty piece. -/
def replaceAll (old new s : List Char) : List Char := replaceFrom old new 0 s

/-- The parts between the characters with the property, empty ones included. -/
def splitBy (p : Char → Bool) : List Char → List (List Char)
  | [] => [[]]
  | c :: s =>
    if p c then [] :: splitBy p s
    else
      match splitBy p s with
      | [] => [[c]]
      | part :: parts => (c :: part) :: parts

/-! ## Pieces -/

section Pieces

variable {old new piece s t : List Char}

theorem replaceFrom_drop (skip : Nat) (s : List Char) :
    replaceFrom old new skip s = replaceFrom old new 0 (s.drop skip) := by
  induction s generalizing skip with
  | nil => cases skip <;> rfl
  | cons c s ih =>
    cases skip with
    | zero => rfl
    | succ skip => exact ih skip

/-- An occurrence in front is replaced. -/
theorem replaceAll_append_self (h : old ≠ []) (s : List Char) :
    replaceAll old new (old ++ s) = new ++ replaceAll old new s := by
  obtain ⟨c, old, rfl⟩ := List.exists_cons_of_ne_nil h
  have hprefix : (c :: old).isPrefixOf (c :: (old ++ s)) = true :=
    List.isPrefixOf_iff_prefix.2 (List.prefix_append (c :: old) s)
  rw [replaceAll, List.cons_append, replaceFrom, if_pos hprefix, replaceFrom_drop, List.length_cons,
    Nat.add_sub_cancel, List.drop_left]
  rfl

/-- A character that no occurrence starts with stays. -/
theorem replaceAll_cons {c : Char} (h : ¬ old <+: c :: s) :
    replaceAll old new (c :: s) = c :: replaceAll old new s := by
  rw [replaceAll, replaceFrom, if_neg fun hp => h (List.isPrefixOf_iff_prefix.1 hp)]
  rfl

/-- One character is replaced wherever it stands. -/
theorem replaceAll_singleton (d : Char) (new s : List Char) :
    replaceAll [d] new s = s.flatMap fun c => if c = d then new else [c] := by
  induction s with
  | nil => rfl
  | cons c s ih =>
    rw [List.flatMap_cons, ← ih]
    by_cases hc : c = d
    · rw [if_pos hc, hc]
      exact replaceAll_append_self (List.cons_ne_nil d []) s
    · rw [if_neg hc]
      refine replaceAll_cons fun hprefix => hc ?_
      exact (List.cons_prefix_cons.1 hprefix).1.symm

/-- Where a piece cannot go on with the next text, its occurrences are in the first one. -/
theorem prefix_of_prefix_append (h : ∀ c ∈ s.head?, c ∉ old.tail) (ht : t ≠ [])
    (hp : old <+: t ++ s) : old <+: t := by
  rcases Nat.lt_or_ge t.length old.length with hlt | hle
  · exfalso
    obtain ⟨u, hu⟩ := List.prefix_of_prefix_length_le (List.prefix_append t s) hp (Nat.le_of_lt hlt)
    subst hu
    obtain ⟨d, t, rfl⟩ := List.exists_cons_of_ne_nil ht
    cases u with
    | nil => simp at hlt
    | cons c u =>
      have hs : c :: u <+: s := (List.prefix_append_right_inj _).1 hp
      obtain ⟨r, rfl⟩ := hs
      exact h c rfl (by simp)
  · exact List.prefix_of_prefix_length_le hp (List.prefix_append t s) hle

/-- Two texts are replaced one after the other, if no occurrence goes over from one to the
other. -/
theorem replaceAll_append (hold : old ≠ []) (t : List Char)
    (h : ∀ u, u ≠ [] → u <:+ t → old <+: u ++ s → old <+: u) :
    replaceAll old new (t ++ s) = replaceAll old new t ++ replaceAll old new s := by
  induction hn : t.length using Nat.strongRecOn generalizing t with
  | _ n ih =>
    cases t with
    | nil => rfl
    | cons c t =>
      by_cases hp : old <+: c :: t
      · obtain ⟨t', ht'⟩ := hp
        have hlt : t'.length < n := by
          have hlen := congrArg List.length ht'
          have hpos := List.length_pos_iff.2 hold
          rw [List.length_append] at hlen
          omega
        have hsuffix : t' <:+ c :: t := ht' ▸ List.suffix_append old t'
        have hrest := ih _ hlt t' (fun u hu hsuf => h u hu (hsuf.trans hsuffix)) rfl
        rw [← ht', List.append_assoc, replaceAll_append_self hold, replaceAll_append_self hold,
          hrest, List.append_assoc]
      · have hp' : ¬ old <+: c :: (t ++ s) := fun hpre =>
          hp (h (c :: t) (List.cons_ne_nil c t) (List.suffix_refl _) hpre)
        have hrest := ih t.length (by rw [← hn]; exact Nat.lt_succ_self _) t
          (fun u hu hsuf => h u hu (hsuf.trans (List.suffix_cons c t))) rfl
        rw [List.cons_append, replaceAll_cons hp', replaceAll_cons hp, List.cons_append, hrest]

theorem mem_of_mem_replaceAll {c : Char} (h : c ∈ replaceAll old new s) : c ∈ s ∨ c ∈ new := by
  have hfrom : ∀ skip, c ∈ replaceFrom old new skip s → c ∈ s ∨ c ∈ new := by
    clear h
    induction s with
    | nil => exact fun skip h => by cases skip <;> cases h
    | cons d s ih =>
      intro skip h
      cases skip with
      | succ skip => exact (ih skip h).imp_left (List.mem_cons_of_mem d)
      | zero =>
        rw [replaceFrom] at h
        split at h
        · rcases List.mem_append.1 h with h | h
          · exact .inr h
          · exact (ih _ h).imp_left (List.mem_cons_of_mem d)
        · rcases List.mem_cons.1 h with rfl | h
          · exact .inl List.mem_cons_self
          · exact (ih _ h).imp_left (List.mem_cons_of_mem d)
  exact hfrom 0 h

/-- A character that is not replaced stays. -/
theorem mem_replaceAll_of_mem {c : Char} (hne : old ≠ []) (hold : c ∉ old) (h : c ∈ s) :
    c ∈ replaceAll old new s := by
  have hfrom : ∀ (s : List Char) (skip : Nat), c ∈ s →
      c ∈ replaceFrom old new skip s ∨ c ∈ s.take skip := by
    intro s
    induction s with
    | nil => exact fun _ h => absurd h List.not_mem_nil
    | cons d s ih =>
      intro skip h
      cases skip with
      | succ skip =>
        rw [List.take_succ_cons, replaceFrom]
        rcases List.mem_cons.1 h with rfl | h
        · exact .inr List.mem_cons_self
        · exact (ih skip h).imp_right (List.mem_cons_of_mem d)
      | zero =>
        left
        rw [replaceFrom]
        split
        · rename_i hpre
          -- what is skipped is of the piece that is replaced
          obtain ⟨t, ht⟩ := List.isPrefixOf_iff_prefix.mp hpre
          obtain ⟨e, old, rfl⟩ := List.exists_cons_of_ne_nil hne
          obtain ⟨rfl, rfl⟩ := List.cons.inj ht
          rw [List.mem_cons, not_or] at hold
          have hs : c ∈ old ++ t := (List.mem_cons.1 h).resolve_left hold.1
          rcases ih old.length hs with h | h
          · exact List.mem_append_right new h
          · have htake : (old ++ t).take old.length = old := List.take_left
            exact absurd (htake ▸ h) hold.2
        · rcases List.mem_cons.1 h with rfl | h
          · exact List.mem_cons_self
          · exact List.mem_cons_of_mem d ((ih 0 h).resolve_right List.not_mem_nil)
  exact (hfrom s 0 h).resolve_right List.not_mem_nil

/-- The first occurrence of a piece, after a text that it is not in and cannot begin in. -/
theorem after_append (hnot : ¬ piece <:+: t) (hlast : ∀ c ∈ t.getLast?, c ∉ piece) (hne : piece ≠ [])
    (s : List Char) : after piece (t ++ (piece ++ s)) = some s := by
  induction t with
  | nil =>
    obtain ⟨c, piece, rfl⟩ := List.exists_cons_of_ne_nil hne
    have hprefix : (c :: piece).isPrefixOf (c :: (piece ++ s)) = true :=
      List.isPrefixOf_iff_prefix.2 (List.prefix_append (c :: piece) s)
    rw [List.nil_append, List.cons_append, after, if_pos hprefix, ← List.cons_append, List.drop_left]
  | cons c t ih =>
    have hp : ¬ piece <+: c :: (t ++ (piece ++ s)) := by
      intro hp
      rcases Nat.lt_or_ge (c :: t).length piece.length with hlt | hle
      · -- the last character in front would be in the piece
        have hsub : c :: t <+: piece :=
          List.prefix_of_prefix_length_le (List.prefix_append (c :: t) (piece ++ s)) hp
            (Nat.le_of_lt hlt)
        have hmem := List.getLast_mem (List.cons_ne_nil c t)
        exact hlast _ (List.getLast?_eq_some_getLast (List.cons_ne_nil c t)) (hsub.subset hmem)
      · have hpre : piece <+: c :: t :=
          List.prefix_of_prefix_length_le hp (List.prefix_append (c :: t) (piece ++ s)) hle
        exact hnot hpre.isInfix
    have hnot' : ¬ piece <:+: t := fun hi => hnot (hi.trans (List.suffix_cons c t).isInfix)
    have hlast' : ∀ d ∈ t.getLast?, d ∉ piece := by
      intro d hd
      refine hlast d ?_
      rw [List.getLast?_cons, Option.mem_def.1 hd]
      rfl
    rw [List.cons_append, after, if_neg fun h => hp (List.isPrefixOf_iff_prefix.1 h)]
    exact ih hnot' hlast'

theorem splitBy_eq_singleton {p : Char → Bool} (h : ∀ c ∈ s, p c = false) : splitBy p s = [s] := by
  induction s with
  | nil => rfl
  | cons c s ih =>
    rw [splitBy, h c List.mem_cons_self, if_neg Bool.false_ne_true,
      ih fun d hd => h d (List.mem_cons_of_mem c hd)]

/-- The part in front of the first separator. -/
theorem splitBy_append {p : Char → Bool} {c : Char} (h : ∀ d ∈ t, p d = false) (hc : p c = true)
    (s : List Char) : splitBy p (t ++ c :: s) = t :: splitBy p s := by
  induction t with
  | nil => rw [List.nil_append, splitBy, if_pos hc]
  | cons d t ih =>
    rw [List.cons_append, splitBy, h d List.mem_cons_self, if_neg Bool.false_ne_true,
      ih fun d' hd' => h d' (List.mem_cons_of_mem d hd')]

end Pieces

/-! ## Cutting off ends -/

theorem dropWhile_eq_self {p : Char → Bool} {s : List Char} (h : ∀ c ∈ s.head?, p c = false) :
    s.dropWhile p = s := by
  cases s with
  | nil => rfl
  | cons c s =>
    have hc : p c = false := h c rfl
    rw [List.dropWhile_cons_of_neg (by simp [hc])]

theorem head?_dropWhile {p : Char → Bool} (s : List Char) :
    ∀ c ∈ (s.dropWhile p).head?, p c = false := by
  induction s with
  | nil => simp
  | cons d s ih =>
    cases hd : p d with
    | true =>
      rw [List.dropWhile_cons_of_pos hd]
      exact ih
    | false =>
      rw [List.dropWhile_cons_of_neg (by simp [hd])]
      simp [hd]

theorem trimBy_eq_self {p : Char → Bool} {s : List Char} (h : ∀ c ∈ s, p c = false) :
    trimBy p s = s := by
  have hback : s.reverse.dropWhile p = s.reverse := by
    refine dropWhile_eq_self fun c hc => h c ?_
    exact List.mem_reverse.1 (List.mem_of_mem_head? hc)
  rw [trimBy, dropWhile_eq_self fun c hc => h c (List.mem_of_mem_head? hc), hback,
    List.reverse_reverse]

/-- What is cut off in front makes no difference. -/
theorem trimBy_append_left {p : Char → Bool} {t : List Char} (h : ∀ c ∈ t, p c = true)
    (s : List Char) : trimBy p (t ++ s) = trimBy p s := by
  rw [trimBy, List.dropWhile_append_of_pos h]
  rfl

/-- What stands in front stays if nothing is to be cut off its ends. -/
theorem trimBy_append {p : Char → Bool} {s : List Char} (hne : s ≠ [])
    (hhead : ∀ c ∈ s.head?, p c = false) (hlast : ∀ c ∈ s.getLast?, p c = false) (t : List Char) :
    trimBy p (s ++ t) = s ++ (t.reverse.dropWhile p).reverse := by
  have hfront : (s ++ t).dropWhile p = s ++ t := by
    refine dropWhile_eq_self fun c hc => hhead c ?_
    rwa [List.head?_append_of_ne_nil s hne] at hc
  have hback : s.reverse.dropWhile p = s.reverse := by
    refine dropWhile_eq_self fun c hc => hlast c ?_
    rwa [List.head?_reverse] at hc
  rw [trimBy, hfront, List.reverse_append, List.dropWhile_append]
  split
  · rename_i hempty
    rw [hback, List.reverse_reverse, List.isEmpty_iff.mp hempty, List.reverse_nil, List.append_nil]
  · rw [List.reverse_append, List.reverse_reverse]

/-- What has been trimmed is not trimmed further. -/
theorem trimBy_trimBy (p : Char → Bool) (s : List Char) : trimBy p (trimBy p s) = trimBy p s := by
  have hfront : (trimBy p s).dropWhile p = trimBy p s := by
    refine dropWhile_eq_self fun c hc => ?_
    -- what is cut off at the back leaves the front as it is
    have hprefix : trimBy p s <+: s.dropWhile p := by
      rw [trimBy, ← List.reverse_suffix, List.reverse_reverse]
      exact List.dropWhile_suffix p
    obtain ⟨tail, htail⟩ := hprefix
    refine head?_dropWhile s c ?_
    rw [← htail, List.head?_append, Option.mem_def.mp hc]
    rfl
  have hback : (trimBy p s).reverse.dropWhile p = (trimBy p s).reverse := by
    rw [trimBy, List.reverse_reverse]
    exact dropWhile_eq_self (head?_dropWhile _)
  rw [show trimBy p (trimBy p s) = (((trimBy p s).dropWhile p).reverse.dropWhile p).reverse from rfl,
    hfront, hback, List.reverse_reverse]

/-- What has been trimmed ends in nothing that is trimmed. -/
theorem last_trimBy {p : Char → Bool} {s t : List Char} {d : Char} (h : trimBy p s = t ++ [d]) :
    p d = false := by
  have hrev : (t ++ [d]).reverse = (s.dropWhile p).reverse.dropWhile p := by
    rw [← h, trimBy, List.reverse_reverse]
  refine head?_dropWhile (s.dropWhile p).reverse d ?_
  rw [← hrev, List.reverse_append]
  rfl

end E2Mail.Lib.Text
