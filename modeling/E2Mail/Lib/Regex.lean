import Mathlib.Data.List.Infix
import E2Mail.Lib.Pattern

/-!
# Regular expressions with backtracking

Regular expressions as scripting languages have them: a greedy or lazy repetition decides which
match is found, and groups remember what they matched. The matcher passes what is left to a
continuation and goes back when that fails.

* `Regex.run` — the matcher; `matchAt`, `find` — at a position, and at the first where it matches.
* `replace`, `replaceAll`, `matchAll` — the functions of a string that are built on it.
* `run_suffix` — what is left after a match is an end of the text.
* `run_letters`, `repeatRun_lazy` — what a literal and a lazy repetition of everything match.
* `findFrom_pass`, `repeatRun_greedy` — a search that goes on, a repetition up to its end.
* `replaceAll_eq` — replacing by an expression that looks at nothing but the match.

The type of letters is arbitrary.
-/

namespace E2Mail.Lib

variable {α β : Type}

/-- Regular expressions. -/
inductive Regex (α : Type) where
  /-- nothing -/
  | empty
  /-- a letter of a class -/
  | letter (p : α → Bool)
  | seq (r s : Regex α)
  /-- `r|s` -/
  | alt (r s : Regex α)
  /-- `r*`, or `r*?` -/
  | star (greedy : Bool) (r : Regex α)
  /-- a group that remembers its match -/
  | group (n : Nat) (r : Regex α)
  /-- `(?=r)` -/
  | ahead (r : Regex α)
  /-- the letter before the position, if there is one -/
  | behind (p : Option α → Bool)
  /-- the letter after the position, if there is one -/
  | next (p : Option α → Bool)

namespace Regex

/-- A position in a text: the letters before it, the last first, what is left, and the groups. -/
structure Pos (α : Type) where
  before : List α
  rest : List α
  groups : List (Nat × List α)

/-- A repetition, with the number of letters that are left as its fuel: every turn takes one. -/
def repeatRun (step : Pos α → (Pos α → Option β) → Option β) (greedy : Bool) :
    Nat → Pos α → (Pos α → Option β) → Option β
  | 0, p, k => k p
  | n + 1, p, k =>
    let more := fun _ : Unit => step p fun q =>
      if q.rest.length < p.rest.length then repeatRun step greedy n q k else none
    if greedy then (more ()).orElse fun _ => k p else (k p).orElse more

/-- The matcher: `k` is what comes after the expression. -/
def run : Regex α → {β : Type} → Pos α → (Pos α → Option β) → Option β
  | empty, _, p, k => k p
  | letter q, _, p, k =>
    match p.rest with
    | [] => none
    | c :: s => if q c then k { p with before := c :: p.before, rest := s } else none
  | seq r s, _, p, k => r.run p fun q => s.run q k
  | alt r s, _, p, k => (r.run p k).orElse fun _ => s.run p k
  | star greedy r, _, p, k => repeatRun r.run greedy p.rest.length p k
  | group n r, _, p, k => r.run p fun q =>
    k { q with groups := (n, p.rest.take (p.rest.length - q.rest.length)) :: q.groups }
  -- what is ahead is matched once, with nothing to come after it
  | ahead r, _, p, k => (r.run p fun q => some q.groups).bind fun g => k { p with groups := g }
  | behind q, _, p, k => if q p.before.head? then k p else none
  | next q, _, p, k => if q p.rest.head? then k p else none

/-- What a match has found. -/
structure Match (α : Type) where
  /-- what comes before it, the last letter first -/
  before : List α
  /-- the text that matched -/
  text : List α
  /-- what comes after it -/
  rest : List α
  groups : List (Nat × List α)

/-- What a group has matched. -/
def Match.group (m : Match α) (n : Nat) : List α :=
  ((m.groups.find? fun g => g.1 == n).map Prod.snd).getD []

/-- The match at a position. -/
def matchAt (r : Regex α) (before s : List α) : Option (Match α) :=
  (r.run ⟨before, s, []⟩ some).map fun q =>
    ⟨before, s.take (s.length - q.rest.length), q.rest, q.groups⟩

/-- The first match from a position on, with what stands before it. -/
def findFrom (r : Regex α) (before : List α) : List α → Option (List α × Match α)
  | [] => (r.matchAt before []).map fun m => ([], m)
  | c :: s =>
    match r.matchAt before (c :: s) with
    | some m => some ([], m)
    | none => (findFrom r (c :: before) s).map fun (pre, m) => (c :: pre, m)

/-- The first match. -/
def find (r : Regex α) (s : List α) : Option (List α × Match α) := r.findFrom [] s

/-- There is a match. -/
def test (r : Regex α) (s : List α) : Bool := (r.find s).isSome

/-- The first match replaced. -/
def replace (r : Regex α) (f : Match α → List α) (s : List α) : List α :=
  match r.find s with
  | none => s
  | some (pre, m) => pre ++ f m ++ m.rest

/-- All matches replaced, from the left; `skip` letters are part of a match. -/
def replaceFrom (r : Regex α) (f : Match α → List α) : Nat → List α → List α → List α
  | 0, before, [] => ((r.matchAt before []).map f).getD []
  | _ + 1, _, [] => []
  | skip + 1, before, c :: s => replaceFrom r f skip (c :: before) s
  | 0, before, c :: s =>
    match r.matchAt before (c :: s) with
    | none => c :: replaceFrom r f 0 (c :: before) s
    | some m =>
      match m.text.length with
      | 0 => f m ++ c :: replaceFrom r f 0 (c :: before) s
      | n + 1 => f m ++ replaceFrom r f n (c :: before) s

/-- All matches replaced. -/
def replaceAll (r : Regex α) (f : Match α → List α) (s : List α) : List α := r.replaceFrom f 0 [] s

/-- All matches from the left that do not overlap, each with where it begins. -/
def matchesFrom (r : Regex α) : Nat → Nat → List α → List α → List (Nat × Match α)
  | i, 0, before, [] => ((r.matchAt before []).map fun m => (i, m)).toList
  | _, _ + 1, _, [] => []
  | i, skip + 1, before, c :: s => matchesFrom r (i + 1) skip (c :: before) s
  | i, 0, before, c :: s =>
    match r.matchAt before (c :: s) with
    | none => matchesFrom r (i + 1) 0 (c :: before) s
    | some m => (i, m) :: matchesFrom r (i + 1) (m.text.length - 1) (c :: before) s

def matchAll (r : Regex α) (s : List α) : List (Nat × Match α) := r.matchesFrom 0 0 [] s

/-! ## Building expressions -/

/-- A text, up to a classification of the letters. -/
def letters [DecidableEq β] (canon : α → β) (text : List α) : Regex α :=
  text.foldr (fun c r => seq (letter fun d => canon d == canon c) r) empty

/-- `r?`. -/
def opt (r : Regex α) : Regex α := alt r empty

/-- `r+`, or `r+?`. -/
def plus (greedy : Bool) (r : Regex α) : Regex α := seq r (star greedy r)

/-! ## What is left after a match -/

theorem repeatRun_suffix {step : Pos α → (Pos α → Option β) → Option β} {greedy : Bool}
    (hstep : ∀ p k x, step p k = some x → ∃ q, q.rest <:+ p.rest ∧ k q = some x) {n : Nat}
    {p : Pos α} {k : Pos α → Option β} {x : β} (h : repeatRun step greedy n p k = some x) :
    ∃ q, q.rest <:+ p.rest ∧ k q = some x := by
  induction n generalizing p with
  | zero => exact ⟨p, List.suffix_refl _, h⟩
  | succ n ih =>
    -- one more turn, and the turns after it
    have hmore : (step p fun q =>
        if q.rest.length < p.rest.length then repeatRun step greedy n q k else none) = some x →
        ∃ q, q.rest <:+ p.rest ∧ k q = some x := by
      intro hy
      obtain ⟨q, hq, hy⟩ := hstep _ _ _ hy
      split at hy
      · obtain ⟨q', hq', hy⟩ := ih hy
        exact ⟨q', hq'.trans hq, hy⟩
      · cases hy
    cases greedy
    · rw [repeatRun, if_neg Bool.false_ne_true, Option.orElse_eq_or, Option.or_eq_some_iff] at h
      rcases h with h | ⟨-, h⟩
      · exact ⟨p, List.suffix_refl _, h⟩
      · exact hmore h
    · rw [repeatRun, if_pos rfl, Option.orElse_eq_or, Option.or_eq_some_iff] at h
      rcases h with h | ⟨-, h⟩
      · exact hmore h
      · exact ⟨p, List.suffix_refl _, h⟩

theorem run_suffix {r : Regex α} {p : Pos α} {k : Pos α → Option β} {x : β}
    (h : r.run p k = some x) : ∃ q, q.rest <:+ p.rest ∧ k q = some x := by
  induction r generalizing β p with
  | empty => exact ⟨p, List.suffix_refl _, h⟩
  | letter q =>
    obtain ⟨before, rest, groups⟩ := p
    cases rest with
    | nil => simp [run] at h
    | cons c s =>
      simp only [run] at h
      split at h
      · exact ⟨_, List.suffix_cons _ _, h⟩
      · cases h
  | seq r s ihr ihs =>
    obtain ⟨q, hq, h⟩ := ihr h
    obtain ⟨q', hq', h⟩ := ihs h
    exact ⟨q', hq'.trans hq, h⟩
  | alt r s ihr ihs =>
    rw [run, Option.orElse_eq_or, Option.or_eq_some_iff] at h
    rcases h with h | ⟨-, h⟩
    · exact ihr h
    · exact ihs h
  | star greedy r ih => exact repeatRun_suffix (fun _ _ _ h => ih h) h
  | group n r ih =>
    obtain ⟨q, hq, h⟩ := ih h
    exact ⟨⟨q.before, q.rest, (n, p.rest.take (p.rest.length - q.rest.length)) :: q.groups⟩, hq, h⟩
  | ahead r ih =>
    obtain ⟨g, -, h⟩ := Option.bind_eq_some_iff.1 h
    exact ⟨{ p with groups := g }, List.suffix_refl _, h⟩
  | behind q | next q =>
    simp only [run] at h
    split at h
    · exact ⟨p, List.suffix_refl _, h⟩
    · cases h

theorem matchAt_of_run {r : Regex α} {before s : List α} {q : Pos α}
    (h : r.run ⟨before, s, []⟩ some = some q) :
    r.matchAt before s = some ⟨before, s.take (s.length - q.rest.length), q.rest, q.groups⟩ := by
  rw [matchAt, h, Option.map_some]

theorem matchAt_suffix {r : Regex α} {before s : List α} {m : Match α}
    (h : r.matchAt before s = some m) : m.rest <:+ s := by
  obtain ⟨q, hq, rfl⟩ := Option.map_eq_some_iff.1 h
  obtain ⟨q', hq', h⟩ := run_suffix hq
  cases h
  exact hq'

theorem findFrom_suffix {r : Regex α} {before s pre : List α} {m : Match α}
    (h : r.findFrom before s = some (pre, m)) : ∃ s', s = pre ++ s' ∧ m.rest <:+ s' := by
  induction s generalizing before pre with
  | nil =>
    obtain ⟨m', hm, h⟩ := Option.map_eq_some_iff.1 h
    cases h
    exact ⟨[], rfl, matchAt_suffix hm⟩
  | cons c s ih =>
    rw [findFrom] at h
    split at h
    next m' hm =>
      cases h
      exact ⟨c :: s, rfl, matchAt_suffix hm⟩
    next =>
      obtain ⟨⟨pre', m'⟩, hm, h⟩ := Option.map_eq_some_iff.1 h
      cases h
      obtain ⟨s', rfl, hs⟩ := ih hm
      exact ⟨s', rfl, hs⟩

/-- Taking a match out makes a text no longer. -/
theorem length_replace_nil (r : Regex α) (s : List α) :
    (r.replace (fun _ => []) s).length ≤ s.length := by
  rw [replace]
  split
  next => exact Nat.le_refl _
  next pre m h =>
    obtain ⟨s', rfl, hs⟩ := findFrom_suffix h
    have hle := hs.length_le
    simp only [List.append_nil, List.length_append]
    omega

/-- A text without a match stays as it is. -/
theorem replace_of_not_test {r : Regex α} {s : List α} (h : r.test s = false)
    (f : Match α → List α) : r.replace f s = s := by
  rw [replace, Option.isSome_eq_false_iff.1 h |> Option.isNone_iff_eq_none.1]

/-! ## A block between two literals -/

section Literals

variable {κ : Type} [DecidableEq κ] {canon : α → κ}

theorem run_letters {text w : List α} (hw : w.map canon = text.map canon) (before s : List α)
    (groups : List (Nat × List α)) (k : Pos α → Option β) :
    (letters canon text).run ⟨before, w ++ s, groups⟩ k = k ⟨w.reverse ++ before, s, groups⟩ := by
  induction text generalizing before w with
  | nil =>
    obtain rfl : w = [] := by simpa using hw
    rfl
  | cons c text ih =>
    obtain ⟨d, w, rfl, hd, hw⟩ := List.map_eq_cons_iff.1 hw
    have hstep : (letters canon (c :: text)).run ⟨before, d :: (w ++ s), groups⟩ k =
        (letters canon text).run ⟨d :: before, w ++ s, groups⟩ k := by
      simp only [letters, List.foldr_cons, run, hd, beq_self_eq_true, if_true]
    rw [List.cons_append, hstep, ih hw, List.reverse_cons, List.append_assoc]
    rfl

theorem run_letters_ne {c d : α} (h : canon d ≠ canon c) (text before s : List α)
    (groups : List (Nat × List α)) (k : Pos α → Option β) :
    (letters canon (c :: text)).run ⟨before, d :: s, groups⟩ k = none := by
  simp only [letters, List.foldr_cons, run, beq_eq_false_iff_ne.2 h, Bool.false_eq_true, if_false]

/-- A lazy repetition of all letters goes up to the first place where what comes after it
matches. -/
theorem repeatRun_lazy {s₁ s₂ before : List α} {groups : List (Nat × List α)}
    {k : Pos α → Option β} {x : β}
    (hfail : ∀ u d v, s₁ = u ++ d :: v → k ⟨u.reverse ++ before, d :: (v ++ s₂), groups⟩ = none)
    (hx : k ⟨s₁.reverse ++ before, s₂, groups⟩ = some x) {n : Nat} (hn : s₁.length ≤ n) :
    repeatRun (letter fun _ => true).run false n ⟨before, s₁ ++ s₂, groups⟩ k = some x := by
  induction s₁ generalizing before n with
  | nil =>
    have hnow : k ⟨before, [] ++ s₂, groups⟩ = some x := hx
    cases n with
    | zero => exact hnow
    | succ n => rw [repeatRun, if_neg Bool.false_ne_true, hnow, Option.orElse_some]
  | cons d s₁ ih =>
    obtain ⟨n, rfl⟩ : ∃ m, n = m + 1 := ⟨n - 1, by simp at hn; omega⟩
    have hnow : k ⟨before, d :: (s₁ ++ s₂), groups⟩ = none := hfail [] d s₁ rfl
    have hlater : repeatRun (letter fun _ => true).run false n ⟨d :: before, s₁ ++ s₂, groups⟩ k =
        some x := by
      refine ih (fun u e v h => ?_) ?_ (Nat.le_of_succ_le_succ hn)
      · rw [← hfail (d :: u) e v (by rw [h, List.cons_append]), List.reverse_cons, List.append_assoc]
        rfl
      · rw [← hx, List.reverse_cons, List.append_assoc]
        rfl
    rw [List.cons_append, repeatRun, if_neg Bool.false_ne_true, hnow, Option.orElse_none]
    simpa [run] using hlater

/-- `first[\s\S]+?last`. -/
def block (canon : α → κ) (first last : List α) : Regex α :=
  seq (letters canon first) (seq (plus false (letter fun _ => true)) (letters canon last))

theorem find_of_matchAt {r : Regex α} {s : List α} {m : Match α} (h : r.matchAt [] s = some m) :
    r.find s = some ([], m) := by
  cases s with
  | nil => rw [find, findFrom, h, Option.map_some]
  | cons c s => rw [find, findFrom, h]

/-- A block at the beginning, when the first letter of its last line is not inside it. -/
theorem find_block {first last w w' body : List α} {d : α}
    (hw : w.map canon = first.map canon) (hw' : w'.map canon = (d :: last).map canon)
    (hne : body ≠ []) (hbody : ∀ c ∈ body, canon c ≠ canon d) (tail : List α) :
    (block canon first (d :: last)).find (w ++ (body ++ (w' ++ tail))) =
      some ([], ⟨[], w ++ (body ++ w'), tail, []⟩) := by
  obtain ⟨c, body, rfl⟩ := List.exists_cons_of_ne_nil hne
  apply find_of_matchAt
  have hrun : (block canon first (d :: last)).run ⟨[], w ++ (c :: body ++ (w' ++ tail)), []⟩ some =
      some ⟨w'.reverse ++ (body.reverse ++ (c :: w.reverse)), tail, []⟩ := by
    rw [block, run, run_letters hw]
    simp only [run, plus, List.cons_append, if_true, List.append_nil]
    refine repeatRun_lazy (fun u e v h => ?_) ?_ ?_
    · exact run_letters_ne (hbody e (by simp [h])) _ _ _ _ _
    · exact run_letters hw' _ _ _ _
    · simp
  rw [matchAt, hrun, Option.map_some]
  have hlen : (w ++ (c :: body ++ (w' ++ tail))).length - tail.length =
      (w ++ (c :: body ++ w')).length := by
    simp
    omega
  have htext : w ++ (c :: body ++ (w' ++ tail)) = (w ++ (c :: body ++ w')) ++ tail := by simp
  rw [hlen, htext, List.take_left]

end Literals

/-! ## Going on -/

section Search

variable {r : Regex α} {before a s : List α} {m : Match α}

/-- Where nothing matches in a piece, the search goes on behind it. -/
theorem findFrom_pass
    (h : ∀ u d v, a = u ++ d :: v → r.matchAt (u.reverse ++ before) (d :: (v ++ s)) = none) :
    r.findFrom before (a ++ s) =
      (r.findFrom (a.reverse ++ before) s).map fun (pre, m) => (a ++ pre, m) := by
  induction a generalizing before with
  | nil => exact Option.map_id'.symm
  | cons d a ih =>
    have hnone : r.matchAt before (d :: (a ++ s)) = none := h [] d a rfl
    have hrest : r.findFrom (d :: before) (a ++ s) =
        (r.findFrom (a.reverse ++ d :: before) s).map fun (pre, m) => (a ++ pre, m) := by
      refine ih fun u e v ha => ?_
      have hat := h (d :: u) e v (by rw [ha, List.cons_append])
      rwa [List.reverse_cons, List.append_assoc] at hat
    rw [List.cons_append, findFrom, hnone, hrest, List.reverse_cons, List.append_assoc, Option.map_map]
    rfl

theorem findFrom_of_matchAt (h : r.matchAt before s = some m) :
    r.findFrom before s = some ([], m) := by
  cases s with
  | nil => rw [findFrom, h, Option.map_some]
  | cons c s => rw [findFrom, h]

/-- Where nothing matches at all, nothing is found. -/
theorem findFrom_none (h : ∀ a t, s = a ++ t → r.matchAt (a.reverse ++ before) t = none) :
    r.findFrom before s = none := by
  induction s generalizing before with
  | nil =>
    have hnone : r.matchAt before [] = none := h [] [] rfl
    rw [findFrom, hnone, Option.map_none]
  | cons c s ih =>
    have hnone : r.matchAt before (c :: s) = none := h [] (c :: s) rfl
    have hrest : r.findFrom (c :: before) s = none := by
      refine ih fun a t ha => ?_
      have hat := h (c :: a) t (by rw [ha, List.cons_append])
      rwa [List.reverse_cons, List.append_assoc] at hat
    rw [findFrom, hnone, hrest, Option.map_none]

/-- Where nothing matches at all, nothing is replaced. -/
theorem replaceAll_of_none (h : ∀ a t, s = a ++ t → r.matchAt a.reverse t = none)
    (f : Match α → List α) : r.replaceAll f s = s := by
  suffices hfrom : ∀ before, (∀ a t, s = a ++ t → r.matchAt (a.reverse ++ before) t = none) →
      r.replaceFrom f 0 before s = s from
    hfrom [] fun a t ha => by rw [List.append_nil]; exact h a t ha
  clear h
  induction s with
  | nil =>
    intro before h
    have hnone : r.matchAt before [] = none := h [] [] rfl
    rw [replaceFrom, hnone]
    rfl
  | cons c s ih =>
    intro before h
    have hnone : r.matchAt before (c :: s) = none := h [] (c :: s) rfl
    have hrest : r.replaceFrom f 0 (c :: before) s = s := by
      refine ih (c :: before) fun a t ha => ?_
      have hat := h (c :: a) t (by rw [ha, List.cons_append])
      rwa [List.reverse_cons, List.append_assoc] at hat
    rw [replaceFrom, hnone]
    exact congrArg (c :: ·) hrest

/-- An expression that begins with a letter begins where that letter stands. -/
theorem matchAt_letters_ne {κ : Type} [DecidableEq κ] {canon : α → κ} {c d : α}
    (h : canon d ≠ canon c) (text : List α) (r : Regex α) (before s : List α) :
    (seq (letters canon (c :: text)) r).matchAt before (d :: s) = none := by
  rw [matchAt, run, run_letters_ne h]
  rfl

/-- Every match is one at a position of the text. -/
theorem mem_matchesFrom {i skip : Nat} {im : Nat × Match α}
    (h : im ∈ r.matchesFrom i skip before s) :
    ∃ a t, s = a ++ t ∧ im.1 = i + a.length ∧ r.matchAt (a.reverse ++ before) t = some im.2 := by
  induction s generalizing i skip before with
  | nil =>
    cases skip with
    | zero =>
      rw [matchesFrom, Option.mem_toList, Option.map_eq_some_iff] at h
      obtain ⟨m, hm, rfl⟩ := h
      exact ⟨[], [], rfl, rfl, hm⟩
    | succ skip => simp [matchesFrom] at h
  | cons c s ih =>
    have hlater : ∀ skip, im ∈ r.matchesFrom (i + 1) skip (c :: before) s →
        ∃ a t, c :: s = a ++ t ∧ im.1 = i + a.length ∧
          r.matchAt (a.reverse ++ before) t = some im.2 := by
      intro skip h
      obtain ⟨a, t, rfl, hi, hm⟩ := ih h
      refine ⟨c :: a, t, rfl, by rw [hi, List.length_cons]; omega, ?_⟩
      rwa [List.reverse_cons, List.append_assoc]
    cases skip with
    | zero =>
      rw [matchesFrom] at h
      split at h
      next => exact hlater 0 h
      next m hm =>
        obtain rfl | h := List.mem_cons.1 h
        · exact ⟨[], c :: s, rfl, rfl, hm⟩
        · exact hlater _ h
    | succ skip => exact hlater skip h

/-- A greedy repetition of a letter takes all letters up to the first that is none. -/
theorem repeatRun_greedy {q : α → Bool} {w : List α} {groups : List (Nat × List α)}
    {k : Pos α → Option β} {x : β} (hw : ∀ c ∈ w, q c = true) (hs : ∀ c ∈ s.head?, q c = false)
    (hx : k ⟨w.reverse ++ before, s, groups⟩ = some x) {n : Nat} (hn : w.length ≤ n) :
    repeatRun (letter q).run true n ⟨before, w ++ s, groups⟩ k = some x := by
  induction w generalizing before n with
  | nil =>
    have hnow : k ⟨before, s, groups⟩ = some x := hx
    cases n with
    | zero => exact hnow
    | succ n =>
      rw [repeatRun, if_pos rfl, List.nil_append, hnow]
      cases s with
      | nil => rfl
      | cons c s => simp [run, hs c rfl]
  | cons c w ih =>
    obtain ⟨n, rfl⟩ : ∃ m, n = m + 1 := ⟨n - 1, by simp at hn; omega⟩
    have hlater : repeatRun (letter q).run true n ⟨c :: before, w ++ s, groups⟩ k = some x := by
      refine ih (fun d hd => hw d (List.mem_cons_of_mem c hd)) ?_ (Nat.le_of_succ_le_succ hn)
      rw [← hx, List.reverse_cons, List.append_assoc]
      rfl
    rw [repeatRun, if_pos rfl]
    simp [run, hw c List.mem_cons_self]
    exact .inl hlater

/-- Where a match depends on its text alone, an expression replaces as a finder does. -/
theorem replaceAll_eq {find : List α → Option Nat} {f : Match α → List α} {g : List α → List α}
    (h : ∀ before s, (r.matchAt before s).map (fun m => (m.text.length, f m)) =
      (find s).map fun n => (n, g (s.take n)))
    (hnil : find [] = none) (hpos : ∀ s, find s ≠ some 0) (s : List α) :
    r.replaceAll f s = Pattern.replaceAll find g s := by
  suffices hfrom : ∀ skip before, r.replaceFrom f skip before s = Pattern.replaceFrom find g skip s from
    hfrom 0 []
  induction s with
  | nil =>
    intro skip before
    cases skip with
    | zero =>
      have hnone : r.matchAt before [] = none := by simpa [hnil] using h before []
      rw [replaceFrom, hnone]
      rfl
    | succ skip => rfl
  | cons c s ih =>
    intro skip before
    cases skip with
    | succ skip => exact ih skip (c :: before)
    | zero =>
      have hat := h before (c :: s)
      cases hfind : find (c :: s) with
      | none =>
        have hnone : r.matchAt before (c :: s) = none := by simpa [hfind] using hat
        rw [replaceFrom, hnone, Pattern.replaceFrom, hfind]
        exact congrArg (c :: ·) (ih 0 _)
      | some n =>
        rw [hfind, Option.map_some, Option.map_eq_some_iff] at hat
        obtain ⟨m, hm, hpair⟩ := hat
        obtain ⟨hlength, hf⟩ := Prod.mk.inj hpair
        have hne : n ≠ 0 := fun hn => hpos (c :: s) (by rw [hfind, hn])
        obtain ⟨n, rfl⟩ := Nat.exists_eq_succ_of_ne_zero hne
        rw [replaceFrom, hm, Pattern.replaceFrom, hfind]
        dsimp only
        rw [hlength, hf]
        exact congrArg (g _ ++ ·) (ih n (c :: before))

end Search

end Regex

end E2Mail.Lib
