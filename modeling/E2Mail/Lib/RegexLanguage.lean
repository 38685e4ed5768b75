import E2Mail.Lib.Regex
import Mathlib.Computability.Language

/-!
# What an expression can match

A match depends on what comes after it and on what the matcher tries first. Its text is in a
language all the same, and so is the text of every group.

* `Regex.language`, `Regex.captures` — the texts of an expression and of a group in it.
* `mem_language_plus`, `mem_language_letters` — the texts of a repeated letter and of a literal.
* `run_reads` — the matcher keeps to them.
* `matchAll_captures` — and so do all matches in a text.
-/

namespace E2Mail.Lib.Regex

variable {α β : Type}

/-- The texts of an expression, wherever they stand. -/
def language : Regex α → Language α
  | letter p => {w | ∃ c, p c = true ∧ w = [c]}
  | seq r s => language r * language s
  | alt r s => language r + language s
  | star _ r => KStar.kstar (language r)
  | group _ r => language r
  | empty | ahead _ | behind _ | next _ => 1

/-- The texts of a group. -/
def captures : Regex α → Nat → Language α
  | seq r s, n => captures r n + captures s n
  | alt r s, n => captures r n + captures s n
  | star _ r, n => captures r n
  | group m r, n => (if m = n then language r else 0) + captures r n
  | ahead r, n => captures r n
  | _, _ => 0

theorem mem_language_star {p : α → Bool} {greedy : Bool} {w : List α}
    (h : w ∈ (star greedy (letter p)).language) : ∀ c ∈ w, p c = true := by
  obtain ⟨ws, rfl, hws⟩ := Language.mem_kstar.1 h
  intro c hc
  obtain ⟨x, hx, hc⟩ := List.mem_flatten.1 hc
  obtain ⟨e, he, rfl⟩ := hws x hx
  obtain rfl := List.mem_singleton.1 hc
  exact he

/-- A repeated letter is a text of such letters. -/
theorem mem_language_plus {p : α → Bool} {greedy : Bool} {w : List α}
    (h : w ∈ (plus greedy (letter p)).language) : ∀ c ∈ w, p c = true := by
  obtain ⟨u, ⟨d, hd, rfl⟩, v, hv, rfl⟩ := Language.mem_mul.1 h
  exact List.forall_mem_cons.2 ⟨hd, mem_language_star hv⟩

/-- A literal is a text of its letters. -/
theorem mem_language_letters {κ : Type} [DecidableEq κ] {canon : α → κ} {text w : List α}
    (h : w ∈ (letters canon text).language) : w.map canon = text.map canon := by
  induction text generalizing w with
  | nil =>
    obtain rfl : w = [] := h
    rfl
  | cons c text ih =>
    obtain ⟨u, ⟨d, hd, rfl⟩, v, hv, rfl⟩ := Language.mem_mul.1 h
    rw [List.singleton_append, List.map_cons, List.map_cons, ih hv, beq_iff_eq.1 hd]

/-- From a position to one after it: what is between them, and what the groups have got. -/
structure Reads (r : Regex α) (p q : Pos α) : Prop where
  text : ∃ w ∈ r.language, p.rest = w ++ q.rest
  groups : ∀ g ∈ q.groups, g ∈ p.groups ∨ g.2 ∈ r.captures g.1

section Reads

variable {r s : Regex α} {p q u : Pos α} {greedy : Bool}

theorem reads_self (h : [] ∈ r.language) (p : Pos α) : r.Reads p p :=
  ⟨⟨[], h, rfl⟩, fun _ hg => .inl hg⟩

theorem Reads.seq (h : r.Reads p q) (h' : s.Reads q u) : (r.seq s).Reads p u := by
  obtain ⟨v, hv, hp⟩ := h.text
  obtain ⟨w, hw, hq⟩ := h'.text
  refine ⟨⟨v ++ w, Language.append_mem_mul hv hw, by rw [hp, hq, List.append_assoc]⟩, fun g hg => ?_⟩
  rcases h'.groups g hg with hg | hg
  · exact (h.groups g hg).imp_right .inl
  · exact .inr (.inr hg)

theorem Reads.alt_left (h : r.Reads p q) (s : Regex α) : (r.alt s).Reads p q := by
  obtain ⟨w, hw, hp⟩ := h.text
  exact ⟨⟨w, .inl hw, hp⟩, fun g hg => (h.groups g hg).imp_right .inl⟩

theorem Reads.alt_right (h : s.Reads p q) (r : Regex α) : (r.alt s).Reads p q := by
  obtain ⟨w, hw, hp⟩ := h.text
  exact ⟨⟨w, .inr hw, hp⟩, fun g hg => (h.groups g hg).imp_right .inr⟩

/-- One turn, and the turns after it. -/
theorem Reads.star (h : r.Reads p q) (h' : (r.star greedy).Reads q u) : (r.star greedy).Reads p u := by
  obtain ⟨v, hv, hp⟩ := h.text
  obtain ⟨w, hw, hq⟩ := h'.text
  have hmem : v ++ w ∈ KStar.kstar r.language :=
    mul_kstar_le_kstar (a := r.language) (Language.append_mem_mul hv hw)
  refine ⟨⟨v ++ w, hmem, by rw [hp, hq, List.append_assoc]⟩, fun g hg => ?_⟩
  rcases h'.groups g hg with hg | hg
  · exact h.groups g hg
  · exact .inr hg

end Reads

theorem repeatRun_reads {r : Regex α} {greedy : Bool}
    (hr : ∀ {p : Pos α} {k : Pos α → Option β} {x}, r.run p k = some x →
      ∃ q, r.Reads p q ∧ k q = some x) {n : Nat}
    {p : Pos α} {k : Pos α → Option β} {x : β} (h : repeatRun r.run greedy n p k = some x) :
    ∃ q, (r.star greedy).Reads p q ∧ k q = some x := by
  have hnil : [] ∈ (r.star greedy).language := Language.nil_mem_kstar _
  induction n generalizing p with
  | zero => exact ⟨p, reads_self hnil p, h⟩
  | succ n ih =>
    have hmore : (r.run p fun q =>
        if q.rest.length < p.rest.length then repeatRun r.run greedy n q k else none) = some x →
        ∃ q, (r.star greedy).Reads p q ∧ k q = some x := by
      intro hy
      obtain ⟨q, hq, hy⟩ := hr hy
      split at hy
      · obtain ⟨u, hu, hx⟩ := ih hy
        exact ⟨u, hq.star hu, hx⟩
      · cases hy
    cases greedy
    · rw [repeatRun, if_neg Bool.false_ne_true, Option.orElse_eq_or, Option.or_eq_some_iff] at h
      rcases h with h | ⟨-, h⟩
      · exact ⟨p, reads_self hnil p, h⟩
      · exact hmore h
    · rw [repeatRun, if_pos rfl, Option.orElse_eq_or, Option.or_eq_some_iff] at h
      rcases h with h | ⟨-, h⟩
      · exact hmore h
      · exact ⟨p, reads_self hnil p, h⟩

/-- **What the matcher goes over** is a text of the expression. -/
theorem run_reads {r : Regex α} {p : Pos α} {k : Pos α → Option β} {x : β}
    (h : r.run p k = some x) : ∃ q, r.Reads p q ∧ k q = some x := by
  have hone : [] ∈ (1 : Language α) := rfl
  induction r generalizing β p with
  | empty => exact ⟨p, reads_self (show [] ∈ language empty from hone) p, h⟩
  | letter q =>
    obtain ⟨before, rest, groups⟩ := p
    cases rest with
    | nil => simp [run] at h
    | cons c s =>
      simp only [run] at h
      split at h
      next hc =>
        exact ⟨⟨c :: before, s, groups⟩, ⟨⟨[c], ⟨c, hc, rfl⟩, rfl⟩, fun _ hg => .inl hg⟩, h⟩
      next => cases h
  | seq r s ihr ihs =>
    obtain ⟨q, hq, h⟩ := ihr h
    obtain ⟨u, hu, h⟩ := ihs h
    exact ⟨u, hq.seq hu, h⟩
  | alt r s ihr ihs =>
    rw [run, Option.orElse_eq_or, Option.or_eq_some_iff] at h
    rcases h with h | ⟨-, h⟩
    · obtain ⟨q, hq, h⟩ := ihr h
      exact ⟨q, hq.alt_left s, h⟩
    · obtain ⟨q, hq, h⟩ := ihs h
      exact ⟨q, hq.alt_right r, h⟩
  | star greedy r ih => exact repeatRun_reads (fun h => ih h) h
  | group n r ih =>
    obtain ⟨q, hq, h⟩ := ih h
    obtain ⟨w, hw, hp⟩ := hq.text
    refine ⟨{ q with groups := (n, p.rest.take (p.rest.length - q.rest.length)) :: q.groups },
      ⟨⟨w, hw, hp⟩, fun g hg => ?_⟩, h⟩
    have htake : p.rest.take (p.rest.length - q.rest.length) = w := by
      rw [hp]
      simp
    rcases List.mem_cons.1 hg with rfl | hg
    · right
      rw [captures, if_pos rfl, htake]
      exact .inl hw
    · exact (hq.groups g hg).imp_right .inr
  | ahead r ih =>
    obtain ⟨g, hg, h⟩ := Option.bind_eq_some_iff.1 h
    obtain ⟨q, hq, hsome⟩ := ih hg
    cases hsome
    exact ⟨{ p with groups := q.groups }, ⟨⟨[], hone, rfl⟩, hq.groups⟩, h⟩
  | behind q =>
    simp only [run] at h
    split at h
    · exact ⟨p, reads_self (show [] ∈ language (behind q) from hone) p, h⟩
    · cases h
  | next q =>
    simp only [run] at h
    split at h
    · exact ⟨p, reads_self (show [] ∈ language (next q) from hone) p, h⟩
    · cases h

/-! ## Matches -/

section Matches

variable {r : Regex α} {before s : List α} {m : Match α}

theorem matchAt_captures (h : r.matchAt before s = some m) :
    ∀ g ∈ m.groups, g.2 ∈ r.captures g.1 := by
  obtain ⟨q, hq, rfl⟩ := Option.map_eq_some_iff.1 h
  obtain ⟨u, hu, hsome⟩ := run_reads hq
  cases hsome
  exact fun g hg => (hu.groups g hg).resolve_left List.not_mem_nil

theorem matchAt_text (h : r.matchAt before s = some m) : ∃ w ∈ r.language, s = w ++ m.rest := by
  obtain ⟨q, hq, rfl⟩ := Option.map_eq_some_iff.1 h
  obtain ⟨u, hu, hsome⟩ := run_reads hq
  cases hsome
  exact hu.text

theorem matchesFrom_captures {i skip : Nat} {im : Nat × Match α}
    (h : im ∈ r.matchesFrom i skip before s) : ∀ g ∈ im.2.groups, g.2 ∈ r.captures g.1 := by
  induction s generalizing i skip before with
  | nil =>
    cases skip with
    | zero =>
      rw [matchesFrom, Option.mem_toList, Option.map_eq_some_iff] at h
      obtain ⟨m, hm, rfl⟩ := h
      exact matchAt_captures hm
    | succ skip => simp [matchesFrom] at h
  | cons c s ih =>
    cases skip with
    | zero =>
      rw [matchesFrom] at h
      split at h
      next => exact ih h
      next m hm =>
        rcases List.mem_cons.1 h with rfl | h
        · exact matchAt_captures hm
        · exact ih h
    | succ skip => exact ih h

/-- **A group** of a match has a text of its own, or has not been matched. -/
theorem matchAll_captures {im : Nat × Match α} (h : im ∈ r.matchAll s) (n : Nat) :
    im.2.group n = [] ∨ im.2.group n ∈ r.captures n := by
  rw [Match.group]
  cases hfind : im.2.groups.find? fun g => g.1 == n with
  | none => exact .inl rfl
  | some g =>
    have hn : g.1 = n := by simpa using List.find?_some hfind
    have hmem := matchesFrom_captures h g (List.mem_of_find?_eq_some hfind)
    rw [hn] at hmem
    exact .inr hmem

end Matches

end E2Mail.Lib.Regex
