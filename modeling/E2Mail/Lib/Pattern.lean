import Mathlib.Data.List.Infix
import Mathlib.Logic.Relation

/-!
# Erasing a pattern until none is left

Replacing what a finder finds, from the left, over and over until nothing changes; in
particular, replacing a fixed pattern by nothing, up to a classification of the letters
(upper and lower case, say).

* `replaceAll`, `untilStable` — one pass, and passes until the text is stable.
* `Erase` — one occurrence taken out; `Erases` — any number of them.
* `Headed` — a pattern whose first letter does not come again. Its occurrences do not
  overlap, so it does not matter in which order they are taken out (`erases_join`).
-/

namespace E2Mail.Lib.Pattern

open Relation

variable {α β : Type}

/-! ## Replacing what is found -/

/-- Replaces what `find` finds at a position (a length), from the left; `skip` letters are part of
what has been replaced. -/
def replaceFrom (find : List α → Option Nat) (f : List α → List α) : Nat → List α → List α
  | _, [] => []
  | skip + 1, _ :: s => replaceFrom find f skip s
  | 0, c :: s =>
    match find (c :: s) with
    | some n => f ((c :: s).take n) ++ replaceFrom find f (n - 1) s
    | none => c :: replaceFrom find f 0 s

/-- Replaces all that `find` finds and that does not overlap, from the left. -/
def replaceAll (find : List α → Option Nat) (f : List α → List α) (s : List α) : List α :=
  replaceFrom find f 0 s

/-- What `find` finds that does not overlap, from the left. -/
def matchesFrom (find : List α → Option Nat) : Nat → List α → List (List α)
  | _, [] => []
  | skip + 1, _ :: s => matchesFrom find skip s
  | 0, c :: s =>
    match find (c :: s) with
    | some n => (c :: s).take n :: matchesFrom find (n - 1) s
    | none => matchesFrom find 0 s

/-- A pass over and over, until it changes nothing; every pass that does takes something away. -/
def untilStable [DecidableEq α] (pass : List α → List α) : Nat → List α → List α
  | 0, s => s
  | n + 1, s => if pass s = s then s else untilStable pass n (pass s)

theorem replaceFrom_drop (find : List α → Option Nat) (f : List α → List α) (skip : Nat)
    (s : List α) : replaceFrom find f skip s = replaceFrom find f 0 (s.drop skip) := by
  induction s generalizing skip with
  | nil => cases skip <;> rfl
  | cons c s ih =>
    cases skip with
    | zero => rfl
    | succ skip => exact ih skip

theorem replaceAll_some {find : List α → Option Nat} {f : List α → List α} {c : α} {s : List α}
    {n : Nat} (h : find (c :: s) = some n) :
    replaceAll find f (c :: s) = f ((c :: s).take n) ++ replaceAll find f (s.drop (n - 1)) := by
  rw [replaceAll, replaceFrom, h]
  exact congrArg (_ ++ ·) (replaceFrom_drop find f (n - 1) s)

theorem replaceAll_none {find : List α → Option Nat} {f : List α → List α} {c : α} {s : List α}
    (h : find (c :: s) = none) : replaceAll find f (c :: s) = c :: replaceAll find f s := by
  rw [replaceAll, replaceFrom, h]
  rfl

/-- Taking out leaves letters of the text, in their order. -/
theorem replaceFrom_nil_sublist (find : List α → Option Nat) (skip : Nat) (s : List α) :
    (replaceFrom find (fun _ => []) skip s).Sublist s := by
  induction s generalizing skip with
  | nil => cases skip <;> exact List.Sublist.refl _
  | cons c s ih =>
    cases skip with
    | succ skip => exact (ih skip).trans (List.sublist_cons_self c s)
    | zero =>
      rw [replaceFrom]
      split
      · exact (ih _).trans (List.sublist_cons_self c s)
      · exact (ih 0).cons_cons c

theorem matchesFrom_drop (find : List α → Option Nat) (skip : Nat) (s : List α) :
    matchesFrom find skip s = matchesFrom find 0 (s.drop skip) := by
  induction s generalizing skip with
  | nil => cases skip <;> rfl
  | cons c s ih =>
    cases skip with
    | zero => rfl
    | succ skip => exact ih skip

/-- Where nothing is found at the letters of a piece, it is passed over. -/
theorem pass {find : List α → Option Nat} {x y : List α}
    (h : ∀ a b, x = a ++ b → b ≠ [] → find (b ++ y) = none) (f : List α → List α) :
    replaceAll find f (x ++ y) = x ++ replaceAll find f y ∧
      matchesFrom find 0 (x ++ y) = matchesFrom find 0 y := by
  induction x with
  | nil => exact ⟨rfl, rfl⟩
  | cons c x ih =>
    have hnone : find (c :: (x ++ y)) = none := h [] (c :: x) rfl (List.cons_ne_nil _ _)
    obtain ⟨hreplace, hmatches⟩ := ih fun a b hx => h (c :: a) b (congrArg (c :: ·) hx)
    rw [List.cons_append, replaceAll_none hnone, hreplace, matchesFrom, hnone]
    exact ⟨rfl, hmatches⟩

/-- A piece that is found is replaced. -/
theorem found {find : List α → Option Nat} {x y : List α} (hx : x ≠ [])
    (h : find (x ++ y) = some x.length) (f : List α → List α) :
    replaceAll find f (x ++ y) = f x ++ replaceAll find f y ∧
      matchesFrom find 0 (x ++ y) = x :: matchesFrom find 0 y := by
  obtain ⟨c, x, rfl⟩ := List.exists_cons_of_ne_nil hx
  rw [List.cons_append] at h ⊢
  have htake : (c :: (x ++ y)).take (c :: x).length = c :: x := List.take_left
  have hdrop : (x ++ y).drop x.length = y := List.drop_left
  constructor
  · rw [replaceAll_some h, htake, List.length_cons, Nat.add_sub_cancel, hdrop]
  · rw [matchesFrom, h]
    dsimp only
    rw [htake, matchesFrom_drop, List.length_cons, Nat.add_sub_cancel, hdrop]

/-- Where what follows a piece lets no match run on into it, the two are replaced each on its own. -/
theorem replaceAll_append {find : List α → Option Nat} {x y : List α}
    (hle : ∀ t n, find t = some n → n ≤ t.length)
    (h : ∀ a b, x = a ++ b → b ≠ [] → find (b ++ y) = find b) (f : List α → List α) :
    replaceAll find f (x ++ y) = replaceAll find f x ++ replaceAll find f y := by
  induction hn : x.length using Nat.strong_induction_on generalizing x with
  | _ n ih =>
    subst hn
    cases x with
    | nil => rfl
    | cons c x =>
      have hhead : find (c :: (x ++ y)) = find (c :: x) := h [] (c :: x) rfl (List.cons_ne_nil _ _)
      cases hfind : find (c :: x) with
      | none =>
        rw [List.cons_append, replaceAll_none (hhead.trans hfind), replaceAll_none hfind,
          ih x.length (Nat.lt_succ_self _) (fun a b hx => h (c :: a) b (congrArg (c :: ·) hx)) rfl]
        rfl
      | some n =>
        have hshort : n ≤ (c :: x).length := hle _ _ hfind
        have hdrop : n - 1 ≤ x.length := by
          rw [List.length_cons] at hshort
          omega
        have hrest : replaceAll find f (x.drop (n - 1) ++ y) =
            replaceAll find f (x.drop (n - 1)) ++ replaceAll find f y := by
          refine ih (x.drop (n - 1)).length ?_ (fun a b hx => h (c :: (x.take (n - 1) ++ a)) b ?_) rfl
          · rw [List.length_drop, List.length_cons]
            omega
          · rw [List.cons_append, List.append_assoc, ← hx, List.take_append_drop]
        rw [List.cons_append, replaceAll_some (hhead.trans hfind), replaceAll_some hfind,
          List.drop_append_of_le_length hdrop, hrest, ← List.cons_append,
          List.take_append_of_le_length hshort, List.append_assoc]

/-- A replacement leaves a text as it is, or there is a first match that it changes. -/
theorem replaceAll_cases (find : List α → Option Nat)
    (hfind : ∀ t n, find t = some n → 0 < n) (f : List α → List α) (s : List α) :
    ((∀ m ∈ matchesFrom find 0 s, f m = m) ∧ replaceAll find f s = s) ∨
      ∃ a m b, m ∈ matchesFrom find 0 s ∧ f m ≠ m ∧ a <+: s ∧
        replaceAll find f s = a ++ (f m ++ b) := by
  induction hn : s.length using Nat.strong_induction_on generalizing s with
  | _ n ih =>
    subst hn
    cases s with
    | nil => exact .inl ⟨fun m hm => absurd hm List.not_mem_nil, rfl⟩
    | cons c s =>
      cases hsome : find (c :: s) with
      | none =>
        have hmatches : matchesFrom find 0 (c :: s) = matchesFrom find 0 s := by
          rw [matchesFrom, hsome]
        rw [hmatches, replaceAll_none hsome]
        obtain ⟨hall, heq⟩ | ⟨a, m, b, hm, hne, ha, heq⟩ := ih s.length (Nat.lt_succ_self _) s rfl
        · exact .inl ⟨hall, by rw [heq]⟩
        · exact .inr ⟨c :: a, m, b, hm, hne, List.cons_prefix_cons.mpr ⟨rfl, ha⟩, by rw [heq]; rfl⟩
      | some n =>
        have hlt := hfind _ _ hsome
        obtain ⟨n, rfl⟩ := Nat.exists_eq_add_one_of_ne_zero (Nat.ne_of_gt hlt)
        have hmatches : matchesFrom find 0 (c :: s) =
            (c :: s).take (n + 1) :: matchesFrom find 0 (s.drop n) := by
          rw [matchesFrom, hsome]
          dsimp only
          rw [matchesFrom_drop, Nat.add_sub_cancel]
        rw [hmatches, replaceAll_some hsome, Nat.add_sub_cancel]
        by_cases hfixed : f ((c :: s).take (n + 1)) = (c :: s).take (n + 1)
        · rw [hfixed, List.take_succ_cons]
          have hshort : (s.drop n).length < (c :: s).length := by
            rw [List.length_drop, List.length_cons]
            omega
          obtain ⟨hall, heq⟩ | ⟨a, m, b, hm, hne, ha, heq⟩ := ih (s.drop n).length hshort _ rfl
          · refine .inl ⟨List.forall_mem_cons.mpr ⟨hfixed, hall⟩, ?_⟩
            rw [heq, List.cons_append, List.take_append_drop]
          · refine .inr ⟨c :: s.take n ++ a, m, b, List.mem_cons_of_mem _ hm, hne, ?_, ?_⟩
            · obtain ⟨e, he⟩ := ha
              exact ⟨e, by rw [List.append_assoc, he, List.cons_append, List.take_append_drop]⟩
            · rw [heq, List.append_assoc]
        · exact .inr ⟨[], _, replaceAll find f (s.drop n), List.mem_cons_self, hfixed,
            List.nil_prefix, rfl⟩

/-- A match stands in the text, and is found where it begins. -/
theorem mem_matchesFrom (find : List α → Option Nat) (skip : Nat) (s : List α) :
    ∀ m ∈ matchesFrom find skip s, ∃ a t n, s = a ++ t ∧ find t = some n ∧ m = t.take n := by
  induction s generalizing skip with
  | nil =>
    intro m hm
    cases skip <;> cases hm
  | cons c s ih =>
    have hlater : ∀ skip, ∀ m ∈ matchesFrom find skip s,
        ∃ a t n, c :: s = a ++ t ∧ find t = some n ∧ m = t.take n := by
      intro skip m hm
      obtain ⟨a, t, n, rfl, hfind, hm⟩ := ih skip m hm
      exact ⟨c :: a, t, n, rfl, hfind, hm⟩
    intro m hm
    cases skip with
    | succ skip => exact hlater skip m hm
    | zero =>
      rw [matchesFrom] at hm
      split at hm
      · rename_i n hfind
        obtain rfl | hm := List.mem_cons.mp hm
        · exact ⟨[], c :: s, n, rfl, hfind, rfl⟩
        · exact hlater _ m hm
      · exact hlater 0 m hm

/-- A text stands on one side of a letter that it does not have. -/
theorem infix_cut {a b w : List α} {d : α} (hw : d ∉ w) :
    w <:+: a ++ d :: b ↔ w <:+: a ∨ w <:+: b := by
  constructor
  · rintro ⟨x, y, h⟩
    rw [List.append_assoc] at h
    rcases List.append_eq_append_iff.mp h with ⟨e, rfl, hrest⟩ | ⟨e, rfl, hrest⟩
    · rcases List.append_eq_append_iff.mp hrest with ⟨e', rfl, -⟩ | ⟨e', rfl, hover⟩
      · exact .inl ⟨x, e', by rw [List.append_assoc]⟩
      · cases e' with
        | nil => exact .inl ⟨x, [], by rw [List.append_nil, List.append_nil]⟩
        | cons c e' =>
          obtain ⟨rfl, -⟩ := List.cons.inj hover
          exact absurd (List.mem_append_right e List.mem_cons_self) hw
    · cases e with
      | nil =>
        cases w with
        | nil => exact .inl (List.nil_infix)
        | cons c w =>
          obtain ⟨rfl, -⟩ := List.cons.inj hrest
          exact absurd List.mem_cons_self hw
      | cons c e =>
        obtain ⟨-, rfl⟩ := List.cons.inj hrest
        exact .inr ⟨e, y, List.append_assoc e w y⟩
  · rintro (h | h)
    · exact h.trans (List.prefix_append _ _).isInfix
    · exact h.trans ((List.suffix_cons d b).trans (List.suffix_append a _)).isInfix

/-- Passes that shorten what they change come to an end. -/
theorem stable_untilStable [DecidableEq α] {pass : List α → List α}
    (hlt : ∀ s, pass s ≠ s → (pass s).length < s.length) (n : Nat) :
    ∀ s, s.length < n → pass (untilStable pass n s) = untilStable pass n s := by
  induction n with
  | zero => exact fun s hs => absurd hs (Nat.not_lt_zero _)
  | succ n ih =>
    intro s hs
    rw [untilStable]
    split
    next h => exact h
    next h => exact ih (pass s) (by have := hlt s h; omega)

/-- A pass that finds nothing empty and leaves nothing of it takes something away, if it
changes anything. -/
theorem length_replaceAll_nil (find : List α → Option Nat) (s : List α) :
    (replaceAll find (fun _ => []) s).length ≤ s.length ∧
      ((∀ t n, find t = some n → 0 < n) → replaceAll find (fun _ => []) s ≠ s →
        (replaceAll find (fun _ => []) s).length < s.length) := by
  induction hn : s.length using Nat.strong_induction_on generalizing s with
  | _ n ih =>
    subst hn
    cases s with
    | nil => exact ⟨Nat.le_refl _, fun _ h => absurd rfl h⟩
    | cons c s =>
      cases hfind : find (c :: s) with
      | some k =>
        have heq : replaceAll find (fun _ => []) (c :: s) =
            replaceAll find (fun _ => []) (s.drop (k - 1)) := replaceAll_some hfind
        have hle : (s.drop (k - 1)).length < (c :: s).length := by
          rw [List.length_drop, List.length_cons]
          omega
        have hlt := Nat.lt_of_le_of_lt (ih _ hle _ rfl).1 hle
        rw [heq]
        exact ⟨Nat.le_of_lt hlt, fun _ _ => hlt⟩
      | none =>
        have heq : replaceAll find (fun _ => []) (c :: s) = c :: replaceAll find (fun _ => []) s :=
          replaceAll_none hfind
        obtain ⟨hle, hlt⟩ := ih s.length (Nat.lt_succ_self _) s rfl
        rw [heq, List.length_cons, List.length_cons]
        refine ⟨Nat.succ_le_succ hle, fun hpos hne => Nat.succ_lt_succ (hlt hpos fun h => ?_)⟩
        exact hne (congrArg (c :: ·) h)

/-- A text is cut in one way at the first place of a letter. -/
theorem cut_inj {a a' b b' : List α} {d : α} (ha : d ∉ a) (ha' : d ∉ a')
    (h : a ++ d :: b = a' ++ d :: b') : a = a' ∧ b = b' := by
  induction a generalizing a' with
  | nil =>
    cases a' with
    | nil => exact ⟨rfl, (List.cons.inj h).2⟩
    | cons c a' => exact absurd ((List.cons.inj h).1 ▸ List.mem_cons_self) ha'
  | cons c a ih =>
    cases a' with
    | nil => exact absurd ((List.cons.inj h).1 ▸ List.mem_cons_self) ha
    | cons c' a' =>
      obtain ⟨hc, htail⟩ := List.cons.inj h
      obtain ⟨hab, hbb⟩ := ih (List.not_mem_of_not_mem_cons ha) (List.not_mem_of_not_mem_cons ha') htail
      exact ⟨by rw [hc, hab], hbb⟩

/-- A place of a letter is its first place, or comes after it. -/
theorem cut_cases {a a' b b' : List α} {d : α} (ha : d ∉ a) (h : a' ++ d :: b' = a ++ d :: b) :
    (a' = a ∧ b' = b) ∨ ∃ e, a' = a ++ d :: e ∧ e ++ d :: b' = b := by
  by_cases ha' : d ∈ a'
  · obtain ⟨x, y, rfl, hx⟩ := List.eq_append_cons_of_mem ha'
    rw [List.append_assoc] at h
    obtain ⟨rfl, hb⟩ := cut_inj hx ha h
    exact .inr ⟨y, rfl, hb⟩
  · exact .inl (cut_inj ha' ha h)

/-- Two texts differ where each has a letter that the other does not have before it. -/
theorem cut_ne {a a' b b' : List α} {d d' : α} (hne : d ≠ d') (ha : d' ∉ a) (ha' : d ∉ a') :
    a ++ d :: b ≠ a' ++ d' :: b' := by
  intro h
  induction a generalizing a' with
  | nil =>
    cases a' with
    | nil => exact hne (List.cons.inj h).1
    | cons c a' => exact ha' ((List.cons.inj h).1 ▸ List.mem_cons_self)
  | cons c a ih =>
    cases a' with
    | nil => exact ha ((List.cons.inj h).1 ▸ List.mem_cons_self)
    | cons c' a' =>
      exact ih (List.not_mem_of_not_mem_cons ha) (List.not_mem_of_not_mem_cons ha') (List.cons.inj h).2

/-! ## Where something is found -/

section Places

/-- What `find` finds that does not overlap, each with where it begins; `i` letters come before. -/
def placesFrom (find : List α → Option Nat) : Nat → Nat → List α → List (Nat × List α)
  | _, _, [] => []
  | i, skip + 1, _ :: s => placesFrom find (i + 1) skip s
  | i, 0, c :: s =>
    match find (c :: s) with
    | some n => (i, (c :: s).take n) :: placesFrom find (i + 1) (n - 1) s
    | none => placesFrom find (i + 1) 0 s

/-- The places of a text. -/
def places (find : List α → Option Nat) (s : List α) : List (Nat × List α) := placesFrom find 0 0 s

variable {find find' : List α → Option Nat} {f f' : List α → List α}

theorem placesFrom_drop (find : List α → Option Nat) (i skip : Nat) (s : List α) :
    placesFrom find i skip s = placesFrom find (i + skip) 0 (s.drop skip) := by
  induction s generalizing i skip with
  | nil => cases skip <;> rfl
  | cons c s ih =>
    cases skip with
    | zero => rfl
    | succ skip =>
      rw [placesFrom, ih, List.drop_succ_cons]
      congr 1
      omega

theorem placesFrom_some {i : Nat} {c : α} {s : List α} {n : Nat} (h : find (c :: s) = some n)
    (hn : 0 < n) : placesFrom find i 0 (c :: s) =
      (i, (c :: s).take n) :: placesFrom find (i + n) 0 ((c :: s).drop n) := by
  obtain ⟨n, rfl⟩ := Nat.exists_eq_add_one_of_ne_zero (Nat.ne_of_gt hn)
  rw [placesFrom, h]
  dsimp only
  rw [placesFrom_drop, List.drop_succ_cons]
  congr 2
  omega

theorem placesFrom_none {i : Nat} {c : α} {s : List α} (h : find (c :: s) = none) :
    placesFrom find i 0 (c :: s) = placesFrom find (i + 1) 0 s := by
  rw [placesFrom, h]

theorem le_of_mem_placesFrom {i : Nat} {s : List α} (hpos : ∀ t n, find t = some n → 0 < n) :
    ∀ p ∈ placesFrom find i 0 s, i ≤ p.1 := by
  induction hn : s.length using Nat.strong_induction_on generalizing s i with
  | _ n ih =>
    subst hn
    intro p hp
    cases s with
    | nil => cases hp
    | cons c s =>
      cases hfind : find (c :: s) with
      | none =>
        rw [placesFrom_none hfind] at hp
        have hle := ih s.length (Nat.lt_succ_self _) rfl p hp
        omega
      | some n =>
        have hlt := hpos _ _ hfind
        rw [placesFrom_some hfind hlt] at hp
        obtain rfl | hp := List.mem_cons.mp hp
        · exact Nat.le_refl _
        · have hle := ih ((c :: s).drop n).length (by rw [List.length_drop, List.length_cons]; omega)
            rfl p hp
          omega

/-- What stands at a place is what is found there. -/
theorem mem_placesFrom {i : Nat} {s : List α} (hpos : ∀ t n, find t = some n → 0 < n) :
    ∀ p ∈ placesFrom find i 0 s, ∃ a b n, s = a ++ b ∧ p.1 = i + a.length ∧ find b = some n ∧
      p.2 = b.take n := by
  induction hn : s.length using Nat.strong_induction_on generalizing s i with
  | _ n ih =>
    subst hn
    intro p hp
    cases s with
    | nil => cases hp
    | cons c s =>
      cases hfind : find (c :: s) with
      | none =>
        rw [placesFrom_none hfind] at hp
        obtain ⟨a, b, n, hs, hi, hb, htext⟩ := ih s.length (Nat.lt_succ_self _) rfl p hp
        exact ⟨c :: a, b, n, congrArg (c :: ·) hs, by rw [hi, List.length_cons]; omega, hb, htext⟩
      | some n =>
        have hlt := hpos _ _ hfind
        rw [placesFrom_some hfind hlt] at hp
        obtain rfl | hp := List.mem_cons.mp hp
        · exact ⟨[], c :: s, n, rfl, rfl, hfind, rfl⟩
        · obtain ⟨a, b, m, hs, hi, hb, htext⟩ := ih ((c :: s).drop n).length
            (by rw [List.length_drop, List.length_cons]; omega) rfl p hp
          by_cases hle : n ≤ (c :: s).length
          · refine ⟨(c :: s).take n ++ a, b, m, ?_, ?_, hb, htext⟩
            · rw [List.append_assoc, ← hs, List.take_append_drop]
            · rw [hi, List.length_append, List.length_take_of_le hle]
              omega
          · rw [List.drop_eq_nil_of_le (Nat.le_of_not_le hle)] at hp
            cases hp

/-- Where nothing is found, nothing changes. -/
theorem replaceAll_of_later {i n : Nat} {s : List α} (hpos : ∀ t n, find t = some n → 0 < n)
    (h : ∀ p ∈ placesFrom find i 0 s, i + n ≤ p.1) :
    placesFrom find i 0 s = placesFrom find (i + n) 0 (s.drop n) ∧
      replaceAll find f s = s.take n ++ replaceAll find f (s.drop n) := by
  induction n generalizing i s with
  | zero => exact ⟨rfl, rfl⟩
  | succ n ih =>
    cases s with
    | nil => exact ⟨rfl, rfl⟩
    | cons c s =>
      cases hfind : find (c :: s) with
      | some k =>
        rw [placesFrom_some hfind (hpos _ _ hfind)] at h
        have hle := h _ List.mem_cons_self
        dsimp only at hle
        omega
      | none =>
        rw [placesFrom_none hfind] at h
        obtain ⟨hplaces, hreplace⟩ := ih (i := i + 1) (s := s) fun p hp => by
          have hle := h p hp
          omega
        constructor
        · rw [placesFrom_none hfind, hplaces, List.drop_succ_cons]
          congr 1
          omega
        · rw [replaceAll_none hfind, hreplace]
          rfl

/-- **Two replacements agree** when what the first finds is found by the second in the same
place, and replaced by the same, and the second leaves as it is what the first does not find. -/
theorem replaceAll_of_places (hfind : ∀ t n, find t = some n → 0 < n ∧ n ≤ t.length)
    (hfind' : ∀ t n, find' t = some n → 0 < n ∧ n ≤ t.length)
    (hrest : ∀ t n, find' t = some n → find t = none → f' (t.take n) = t.take n) (s : List α) :
    ∀ i, (∀ p ∈ placesFrom find i 0 s, p ∈ placesFrom find' i 0 s ∧ f p.2 = f' p.2) →
      replaceAll find f s = replaceAll find' f' s := by
  have hpos : ∀ t n, find t = some n → 0 < n := fun t n h => (hfind t n h).1
  have hpos' : ∀ t n, find' t = some n → 0 < n := fun t n h => (hfind' t n h).1
  induction hn : s.length using Nat.strong_induction_on generalizing s with
  | _ n ih =>
    subst hn
    intro i hsub
    cases s with
    | nil => rfl
    | cons c s =>
      cases hsome' : find' (c :: s) with
      | none =>
        have hlater : ∀ p ∈ placesFrom find i 0 (c :: s), i + 1 ≤ p.1 := by
          intro p hp
          have hmem := (hsub p hp).1
          rw [placesFrom_none hsome'] at hmem
          exact le_of_mem_placesFrom hpos' p hmem
        obtain ⟨hplaces, hreplace⟩ := replaceAll_of_later (f := f) hpos hlater
        rw [hreplace, replaceAll_none hsome']
        rw [placesFrom_none hsome', hplaces] at hsub
        exact congrArg (c :: ·) (ih s.length (Nat.lt_succ_self _) s rfl (i + 1) hsub)
      | some n =>
        obtain ⟨hlt, hle⟩ := hfind' _ _ hsome'
        have hshort : ((c :: s).drop n).length < (c :: s).length := by
          rw [List.length_drop]
          omega
        have hreplace' : replaceAll find' f' (c :: s) =
            f' ((c :: s).take n) ++ replaceAll find' f' ((c :: s).drop n) := by
          obtain ⟨n, rfl⟩ := Nat.exists_eq_add_one_of_ne_zero (Nat.ne_of_gt hlt)
          exact replaceAll_some hsome'
        rw [placesFrom_some hsome' hlt] at hsub
        have hafter : ∀ p ∈ placesFrom find' (i + n) 0 ((c :: s).drop n), i + n ≤ p.1 :=
          le_of_mem_placesFrom hpos'
        cases hsome : find (c :: s) with
        | some m =>
          obtain ⟨hlt', hle'⟩ := hfind _ _ hsome
          rw [placesFrom_some hsome hlt'] at hsub
          obtain ⟨hmem, hf⟩ := hsub _ List.mem_cons_self
          have hmn : m = n := by
            obtain heq | hmem := List.mem_cons.mp hmem
            · have hlength := congrArg List.length (Prod.mk.inj heq).2
              rwa [List.length_take_of_le hle', List.length_take_of_le hle] at hlength
            · have hlate := hafter _ hmem
              dsimp only at hlate
              omega
          subst hmn
          have hreplace : replaceAll find f (c :: s) =
              f ((c :: s).take m) ++ replaceAll find f ((c :: s).drop m) := by
            obtain ⟨m, rfl⟩ := Nat.exists_eq_add_one_of_ne_zero (Nat.ne_of_gt hlt)
            exact replaceAll_some hsome
          have hlate : ∀ p ∈ placesFrom find (i + m) 0 ((c :: s).drop m), i + m ≤ p.1 :=
            le_of_mem_placesFrom hpos
          rw [hreplace, hreplace', hf]
          congr 1
          refine ih _ hshort _ rfl (i + m) fun p hp => ?_
          obtain ⟨hmem, hf⟩ := hsub p (List.mem_cons_of_mem _ hp)
          obtain rfl | hmem := List.mem_cons.mp hmem
          · have hle := hlate _ hp
            dsimp only at hle
            omega
          · exact ⟨hmem, hf⟩
        | none =>
          -- the place of the second is none of the first, nor is any up to its end
          have hlate : ∀ p ∈ placesFrom find (i + 1) 0 s, i + 1 ≤ p.1 := le_of_mem_placesFrom hpos
          have hnot : ∀ p ∈ placesFrom find i 0 (c :: s), i + 1 ≤ p.1 := by
            rw [placesFrom_none hsome]
            exact hlate
          have hlater : ∀ p ∈ placesFrom find i 0 (c :: s), i + n ≤ p.1 := by
            intro p hp
            obtain rfl | hmem := List.mem_cons.mp (hsub p hp).1
            · have hle := hnot _ hp
              dsimp only at hle
              omega
            · exact hafter p hmem
          obtain ⟨hplaces, hreplace⟩ := replaceAll_of_later (f := f) hpos hlater
          rw [hreplace, hreplace', hrest _ _ hsome' hsome]
          congr 1
          refine ih _ hshort _ rfl (i + n) fun p hp => ?_
          rw [← hplaces] at hp
          obtain ⟨hmem, hf⟩ := hsub p hp
          obtain rfl | hmem := List.mem_cons.mp hmem
          · have hle := hnot _ hp
            dsimp only at hle
            omega
          · exact ⟨hmem, hf⟩

end Places

/-! ## A fixed pattern -/

variable [DecidableEq β] (canon : α → β) (p : List β)

/-- Finds a text whose letters are classified as the pattern says. -/
def literal (s : List α) : Option Nat :=
  if (s.take p.length).map canon = p then some p.length else none

/-- One occurrence of the pattern is taken out. -/
def Erase (s t : List α) : Prop := ∃ a m b, m.map canon = p ∧ s = a ++ (m ++ b) ∧ t = a ++ b

/-- Occurrences of the pattern are taken out, one after the other. -/
abbrev Erases : List α → List α → Prop := ReflTransGen (Erase canon p)

/-- There is no occurrence of the pattern. -/
def Free (s : List α) : Prop := ∀ a m b, s = a ++ (m ++ b) → m.map canon ≠ p

/-- The pattern is taken out until none is left. -/
def eraseAll [DecidableEq α] (s : List α) : List α :=
  untilStable (replaceAll (literal canon p) fun _ => []) (s.length + 1) s

variable {canon p} {s t u v x y : List α}

omit [DecidableEq β] in
theorem not_erase_of_free (h : Free canon p s) : ¬Erase canon p s t := by
  rintro ⟨a, m, b, hm, hs, -⟩
  exact h a m b hs hm

omit [DecidableEq β] in
theorem Erase.append (h : Erase canon p s t) (x y : List α) :
    Erase canon p (x ++ (s ++ y)) (x ++ (t ++ y)) := by
  obtain ⟨a, m, b, hm, rfl, rfl⟩ := h
  exact ⟨x ++ a, m, b ++ y, hm, by simp only [List.append_assoc], by simp only [List.append_assoc]⟩

omit [DecidableEq β] in
theorem Erases.append (h : Erases canon p s t) (x y : List α) :
    Erases canon p (x ++ (s ++ y)) (x ++ (t ++ y)) :=
  h.lift (fun s => x ++ (s ++ y)) fun _ _ hst => hst.append x y

omit [DecidableEq β] in
/-- What is left in two parts was there in two parts. -/
theorem Erase.of_append (h : Erase canon p s (u ++ v)) :
    (∃ u', s = u' ++ v ∧ Erase canon p u' u) ∨ ∃ v', s = u ++ v' ∧ Erase canon p v' v := by
  obtain ⟨a, m, b, hm, rfl, huv⟩ := h
  rcases List.append_eq_append_iff.mp huv with ⟨e, rfl, rfl⟩ | ⟨e, rfl, rfl⟩
  · exact .inr ⟨e ++ (m ++ b), by simp only [List.append_assoc], e, m, b, hm, rfl, rfl⟩
  · exact .inl ⟨a ++ (m ++ e), by simp only [List.append_assoc], a, m, e, hm, rfl, rfl⟩

omit [DecidableEq β] in
theorem Erases.of_append (h : Erases canon p s (u ++ v)) :
    ∃ u' v', s = u' ++ v' ∧ Erases canon p u' u ∧ Erases canon p v' v := by
  induction h using ReflTransGen.head_induction_on with
  | refl => exact ⟨u, v, rfl, .refl, .refl⟩
  | head hst _ ih =>
    obtain ⟨u', v', rfl, hu, hv⟩ := ih
    rcases hst.of_append with ⟨u'', rfl, hu''⟩ | ⟨v'', rfl, hv''⟩
    · exact ⟨u'', v', rfl, .head hu'' hu, hv⟩
    · exact ⟨u', v'', rfl, hu, .head hv'' hv⟩

theorem literal_eq_some {n : Nat} (h : literal canon p s = some n) :
    n = p.length ∧ (s.take n).map canon = p := by
  rw [literal] at h
  split at h
  next hp =>
    obtain rfl := Option.some.inj h
    exact ⟨rfl, hp⟩
  next => cases h

/-- A pass takes out occurrences of the pattern. -/
theorem erases_pass (hp : p ≠ []) (s : List α) :
    Erases canon p s (replaceAll (literal canon p) (fun _ => []) s) := by
  induction hn : s.length using Nat.strong_induction_on generalizing s with
  | _ n ih =>
    subst hn
    cases s with
    | nil => exact .refl
    | cons c s =>
      cases hfind : literal canon p (c :: s) with
      | some k =>
        obtain ⟨rfl, hk⟩ := literal_eq_some hfind
        have hpos : 0 < p.length := List.length_pos_of_ne_nil hp
        have heq : replaceAll (literal canon p) (fun _ => []) (c :: s) =
            replaceAll (literal canon p) (fun _ => []) (s.drop (p.length - 1)) :=
          replaceAll_some hfind
        have hdrop : (c :: s).drop p.length = s.drop (p.length - 1) := by
          obtain ⟨k, hk⟩ := Nat.exists_eq_succ_of_ne_zero hpos.ne'
          rw [hk]
          rfl
        have hlt : (s.drop (p.length - 1)).length < (c :: s).length := by
          rw [List.length_drop, List.length_cons]
          omega
        rw [heq]
        refine .head ⟨[], (c :: s).take p.length, s.drop (p.length - 1), hk, ?_, rfl⟩ (ih _ hlt _ rfl)
        rw [← hdrop, List.nil_append, List.take_append_drop]
      | none =>
        have heq : replaceAll (literal canon p) (fun _ => []) (c :: s) =
            c :: replaceAll (literal canon p) (fun _ => []) s := replaceAll_none hfind
        have hrest := (ih s.length (Nat.lt_succ_self _) s rfl).append [c] []
        rw [List.append_nil, List.append_nil] at hrest
        rw [heq]
        exact hrest

/-- A text that a pass leaves as it is does not have the pattern. -/
theorem free_of_stable (hp : p ≠ []) (s : List α)
    (h : replaceAll (literal canon p) (fun _ => []) s = s) : Free canon p s := by
  induction s with
  | nil =>
    rintro a m b hs hm
    obtain ⟨-, hmb⟩ := List.append_eq_nil_iff.mp hs.symm
    obtain ⟨rfl, -⟩ := List.append_eq_nil_iff.mp hmb
    exact hp hm.symm
  | cons c s ih =>
    cases hfind : literal canon p (c :: s) with
    | some n =>
      -- something is taken out here, and the text gets shorter
      have hle := (length_replaceAll_nil (literal canon p) (s.drop (n - 1))).1
      rw [replaceAll_some hfind, List.nil_append] at h
      rw [h, List.length_drop, List.length_cons] at hle
      omega
    | none =>
      rw [replaceAll_none hfind] at h
      have hrest := ih (List.cons_inj_right c |>.mp h)
      rintro (_ | ⟨d, a⟩) m b hs hm
      · have hlen : m.length = p.length := by rw [← hm, List.length_map]
        rw [List.nil_append] at hs
        rw [literal, hs, List.take_left' hlen, if_pos hm] at hfind
        cases hfind
      · obtain ⟨-, rfl⟩ := List.cons.inj hs
        exact hrest a m b rfl hm

theorem free_eraseAll [DecidableEq α] (hp : p ≠ []) (s : List α) :
    Free canon p (eraseAll canon p s) := by
  apply free_of_stable hp
  have hpos : ∀ (t : List α) n, literal canon p t = some n → 0 < n := by
    intro t n h
    obtain ⟨rfl, -⟩ := literal_eq_some h
    exact List.length_pos_of_ne_nil hp
  exact stable_untilStable (fun t => (length_replaceAll_nil _ t).2 hpos) _ s (Nat.lt_succ_self _)

theorem erases_eraseAll [DecidableEq α] (hp : p ≠ []) (s : List α) :
    Erases canon p s (eraseAll canon p s) := by
  have hrun : ∀ (n : Nat) (s : List α),
      Erases canon p s (untilStable (replaceAll (literal canon p) fun _ => []) n s) := by
    intro n
    induction n with
    | zero => exact fun _ => .refl
    | succ n ih =>
      intro s
      rw [untilStable]
      split
      · exact .refl
      · exact (erases_pass hp s).trans (ih _)
  exact hrun _ s

/-! ## Patterns whose first letter does not come again -/

/-- The pattern begins with the letter, and has it nowhere else. -/
def Headed (h : β) (p : List β) : Prop := ∃ tail, p = h :: tail ∧ h ∉ tail

variable {h : β} {q : List β}

omit [DecidableEq β] in
/-- No such pattern begins inside another. -/
theorem tail_eq_nil (hp : Headed h p) (hq : Headed h q) {m m' e e' b y : List α}
    (hm : m.map canon = p) (hm' : m'.map canon = q) (he : e ≠ []) (hsplit : m = e ++ e')
    (hover : m' ++ y = e' ++ b) : e' = [] := by
  obtain ⟨tail, rfl, hnot⟩ := hp
  obtain ⟨tail', rfl, -⟩ := hq
  obtain ⟨c, e, rfl⟩ := List.exists_cons_of_ne_nil he
  obtain ⟨d, m', rfl⟩ := List.exists_cons_of_ne_nil (l := m') (by rintro rfl; cases hm')
  cases e' with
  | nil => rfl
  | cons d' e' =>
    obtain ⟨rfl, -⟩ := List.cons.inj hover
    have hhead : canon d = h := (List.cons.inj hm').1
    rw [hsplit, List.cons_append, List.map_cons, List.map_append, List.map_cons] at hm
    refine absurd ?_ hnot
    rw [← (List.cons.inj hm).2, hhead]
    exact List.mem_append_right _ (List.mem_cons_self ..)

omit [DecidableEq β] in
/-- Two occurrences of such patterns begin at the same place, or lie apart. -/
theorem apart (hp : Headed h p) (hq : Headed h q) {a m b m' : List α} (hm : m.map canon = p)
    (hm' : m'.map canon = q) (heq : a ++ (m ++ b) = x ++ (m' ++ y)) :
    (a = x ∧ m ++ b = m' ++ y) ∨ (∃ e, x = a ++ (m ++ e) ∧ b = e ++ (m' ++ y)) ∨
      ∃ e, a = x ++ (m' ++ e) ∧ y = e ++ (m ++ b) := by
  rcases List.append_eq_append_iff.mp heq with ⟨e, rfl, hrest⟩ | ⟨e, rfl, hrest⟩
  · by_cases he : e = []
    · subst he
      exact .inl ⟨(List.append_nil a).symm, hrest⟩
    · rcases List.append_eq_append_iff.mp hrest with ⟨e', rfl, rfl⟩ | ⟨e', hsplit, hover⟩
      · exact .inr (.inl ⟨e', rfl, rfl⟩)
      · obtain rfl := tail_eq_nil hp hq hm hm' he hsplit hover
        rw [List.append_nil] at hsplit
        subst hsplit
        exact .inr (.inl ⟨[], by rw [List.append_nil], hover.symm⟩)
  · by_cases he : e = []
    · subst he
      exact .inl ⟨List.append_nil x, hrest.symm⟩
    · rcases List.append_eq_append_iff.mp hrest with ⟨e', rfl, rfl⟩ | ⟨e', hsplit, hover⟩
      · exact .inr (.inr ⟨e', rfl, rfl⟩)
      · obtain rfl := tail_eq_nil hq hp hm' hm he hsplit hover
        rw [List.append_nil] at hsplit
        subst hsplit
        exact .inr (.inr ⟨[], by rw [List.append_nil], hover.symm⟩)

omit [DecidableEq β] in
theorem length_eq_of_map {m m' : List α} (hm : m.map canon = p) (hm' : m'.map canon = p) :
    m.length = m'.length := by
  rw [← List.length_map canon, ← List.length_map canon, hm, hm']

omit [DecidableEq β] in
/-- Two different ways to take out an occurrence lead on to the same text. -/
theorem erase_diamond (hp : Headed h p) {s t t' : List α} (ht : Erase canon p s t)
    (ht' : Erase canon p s t') : t = t' ∨ ∃ u, Erase canon p t u ∧ Erase canon p t' u := by
  obtain ⟨a, m, b, hm, rfl, rfl⟩ := ht
  obtain ⟨a', m', b', hm', heq, rfl⟩ := ht'
  rcases apart hp hp hm hm' heq with ⟨rfl, hrest⟩ | ⟨e, rfl, rfl⟩ | ⟨e, rfl, rfl⟩
  · obtain ⟨-, rfl⟩ := List.append_inj hrest (length_eq_of_map hm hm')
    exact .inl rfl
  · refine .inr ⟨a ++ (e ++ b'), ⟨a ++ e, m', b', hm', ?_, ?_⟩, ⟨a, m, e ++ b', hm, ?_, rfl⟩⟩
    all_goals simp only [List.append_assoc]
  · refine .inr ⟨a' ++ (e ++ b), ⟨a', m', e ++ b, hm', ?_, rfl⟩, ⟨a' ++ e, m, b, hm, ?_, ?_⟩⟩
    all_goals simp only [List.append_assoc]

omit [DecidableEq β] in
/-- **The order does not matter**: a text without the pattern that has come out of another comes
out of it whatever has been taken out already. -/
theorem erases_of_free (hp : Headed h p) {s t d : List α} (hd : Erases canon p s d)
    (hfree : Free canon p d) (ht : Erases canon p s t) : Erases canon p t d := by
  obtain ⟨u, hdu, htu⟩ := church_rosser (fun a b c hab hac => by
    rcases erase_diamond hp hab hac with rfl | ⟨u, hbu, hcu⟩
    · exact ⟨b, .refl, .refl⟩
    · exact ⟨u, .single hbu, .single hcu⟩) hd ht
  rcases hdu.cases_head with rfl | ⟨c, hc, -⟩
  · exact htu
  · exact absurd hc (not_erase_of_free hfree)

omit [DecidableEq β] in
theorem ne_nil_of_headed (hp : Headed h p) : p ≠ [] := by
  obtain ⟨tail, rfl, -⟩ := hp
  exact List.cons_ne_nil _ _

/-- There is one text without the pattern that comes out of a text. -/
theorem eraseAll_eq_of_free [DecidableEq α] (hp : Headed h p) {s d : List α}
    (hd : Erases canon p s d) (hfree : Free canon p d) : eraseAll canon p s = d := by
  have hstable : Free canon p (eraseAll canon p s) := free_eraseAll (ne_nil_of_headed hp) s
  have hrest := erases_of_free hp hd hfree (erases_eraseAll (ne_nil_of_headed hp) s)
  rcases hrest.cases_head with heq | ⟨c, hc, -⟩
  · exact heq
  · exact absurd hc (not_erase_of_free hstable)

omit [DecidableEq β] in
/-- What is taken out behind an occurrence of another such pattern leaves it there. -/
theorem Erases.keep (hp : Headed h p) (hq : Headed h q) (hpq : ¬p <+: q) (hqp : ¬q <+: p)
    {m' d : List α} (hm' : m'.map canon = q) (hfree : Free canon p x)
    (hd : Erases canon p (x ++ (m' ++ y)) d) : ∃ y', d = x ++ (m' ++ y') := by
  induction hd with
  | refl => exact ⟨y, rfl⟩
  | tail _ hstep ih =>
    obtain ⟨z, rfl⟩ := ih
    obtain ⟨a, m, b, hm, heq, rfl⟩ := hstep
    rcases apart hp hq hm hm' heq.symm with ⟨-, hrest⟩ | ⟨e, rfl, -⟩ | ⟨e, rfl, -⟩
    · -- the two patterns would begin alike
      have hmap := congrArg (List.map canon) hrest
      rw [List.map_append, List.map_append, hm, hm'] at hmap
      have hpre₁ : p <+: p ++ List.map canon b := List.prefix_append _ _
      have hpre₂ : q <+: p ++ List.map canon b := ⟨_, hmap.symm⟩
      rcases List.prefix_or_prefix_of_prefix hpre₁ hpre₂ with hpre | hpre
      · exact absurd hpre hpq
      · exact absurd hpre hqp
    · exact absurd hm (hfree a m e rfl)
    · exact ⟨e ++ b, by simp only [List.append_assoc]⟩

/-- **What taking out one pattern puts together**: the text that is left has another pattern
at a place exactly when a piece of the text before it comes out as that pattern, and what stands
before the piece as that much text. -/
theorem eraseAll_eq_iff [DecidableEq α] (hp : Headed h p) (hq : Headed h q) (hpq : ¬p <+: q)
    (hqp : ¬q <+: p) (s x : List α) {m' : List α} (hm' : m'.map canon = q) :
    (∃ y, eraseAll canon p s = x ++ (m' ++ y)) ↔
      Free canon p x ∧ ∃ x' t y, s = x' ++ (t ++ y) ∧ Erases canon p x' x ∧ Erases canon p t m' := by
  have hne := ne_nil_of_headed hp
  have hfree : Free canon p (eraseAll canon p s) := free_eraseAll hne s
  have herases : Erases canon p s (eraseAll canon p s) := erases_eraseAll hne s
  constructor
  · rintro ⟨y, hy⟩
    rw [hy] at hfree herases
    obtain ⟨x', z, rfl, hx, hz⟩ := herases.of_append
    obtain ⟨t, y', rfl, ht, -⟩ := hz.of_append
    refine ⟨fun a m b hs => ?_, x', t, y', rfl, hx, ht⟩
    exact hfree a m (b ++ (m' ++ y)) (by rw [hs]; simp only [List.append_assoc])
  · rintro ⟨hx, x', t, y, rfl, hx', ht⟩
    have hstep : Erases canon p (x' ++ (t ++ y)) (x ++ (m' ++ y)) := by
      have h1 := hx'.append [] (t ++ y)
      have h2 := ht.append x y
      exact h1.trans h2
    exact (erases_of_free hp herases hfree hstep).keep hp hq hpq hqp hm' hx

end E2Mail.Lib.Pattern
