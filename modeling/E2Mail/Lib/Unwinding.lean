import Mathlib.Data.List.Basic

/-!
# One user's view of a service

A service answers requests one after another, from a state all users share. A
user is not interfered with when the answers to the user's own requests would be
the same with everybody else's requests taken out of the run.

* `after`, `seen` — the state after a run, and the answers to one's own requests.
* `Noninterfering` — they depend on one's own requests alone.
* `seen_eq_iff` — the unwinding rule: it is enough to look at single requests.
  A relation ties the state of the run to that of the user's own run; others'
  requests keep it, and the user's own requests keep it and are answered alike
  exactly where they are clean.
* `views_eq_iff` — the rule for two runs side by side: a relation ties their states, every pair
  of requests keeps it, and the states look alike after a pair exactly where the pair is clean.
-/

namespace E2Mail.Lib

variable {R S O : Type}

/-- The state after a run. -/
def after (step : R → S → O × S) : List R → S → S
  | [], s => s
  | r :: rs, s => after step rs (step r s).2

/-- The answers of a run to the requests `mine`. -/
def seen (step : R → S → O × S) (mine : R → Bool) : List R → S → List O
  | [], _ => []
  | r :: rs, s =>
    if mine r then (step r s).1 :: seen step mine rs (step r s).2
    else seen step mine rs (step r s).2

/-- The answers to `mine` are those of the run of `mine` alone. -/
def Noninterfering (step : R → S → O × S) (mine : R → Bool) (rs : List R) (s : S) : Prop :=
  seen step mine rs s = seen step mine (rs.filter mine) s

/-- Every request of `mine` in a run is clean in the state it is made in. -/
def CleanRun (step : R → S → O × S) (mine : R → Bool) (Clean : R → S → Prop) (rs : List R) (s : S) :
    Prop :=
  ∀ pre r post, rs = pre ++ r :: post → mine r = true → Clean r (after step pre s)

variable {step : R → S → O × S} {mine : R → Bool} {Clean : R → S → Prop}

@[simp] theorem after_nil (s : S) : after step [] s = s := rfl

@[simp] theorem after_cons (r : R) (rs : List R) (s : S) :
    after step (r :: rs) s = after step rs (step r s).2 := rfl

theorem after_append (rs rs' : List R) (s : S) :
    after step (rs ++ rs') s = after step rs' (after step rs s) := by
  induction rs generalizing s with
  | nil => rfl
  | cons r rs ih => exact ih _

theorem cleanRun_nil (s : S) : CleanRun step mine Clean [] s := by
  intro pre r post h
  simp at h

theorem cleanRun_cons {r : R} {rs : List R} {s : S} :
    CleanRun step mine Clean (r :: rs) s ↔
      (mine r = true → Clean r s) ∧ CleanRun step mine Clean rs (step r s).2 := by
  constructor
  · intro h
    refine ⟨fun hmine => h [] r rs rfl hmine, fun pre x post hrs hmine => ?_⟩
    exact h (r :: pre) x post (by rw [hrs]; rfl) hmine
  · rintro ⟨hfirst, hrest⟩ pre x post hsplit hmine
    rcases pre with _ | ⟨y, pre⟩
    · obtain ⟨rfl, rfl⟩ := List.cons.inj hsplit
      exact hfirst hmine
    · obtain ⟨rfl, rfl⟩ := List.cons.inj hsplit
      exact hrest pre x post rfl hmine

/-- **The unwinding rule.** Two runs whose states are related are answered alike
exactly as far as the user's requests are clean. -/
theorem seen_eq_iff {V : S → S → Prop}
    (hothers : ∀ r t u, mine r = false → V t u → V (step r t).2 u)
    (hown : ∀ r t u, mine r = true → V t u → Clean r t →
      (step r t).1 = (step r u).1 ∧ V (step r t).2 (step r u).2)
    (hbreach : ∀ r t u, mine r = true → V t u → ¬Clean r t → (step r t).1 ≠ (step r u).1)
    {rs : List R} {t u : S} (hV : V t u) :
    seen step mine rs t = seen step mine (rs.filter mine) u ↔ CleanRun step mine Clean rs t := by
  induction rs generalizing t u with
  | nil => exact ⟨fun _ => cleanRun_nil t, fun _ => rfl⟩
  | cons r rs ih =>
    rw [cleanRun_cons]
    cases hmine : mine r with
    | false =>
      rw [List.filter_cons_of_neg (by simp [hmine]), seen, if_neg (by simp [hmine]),
        ih (hothers r t u hmine hV)]
      refine ⟨fun h => ⟨fun hbad => ?_, h⟩, fun h => h.2⟩
      cases hbad
    | true =>
      rw [List.filter_cons_of_pos hmine, seen, if_pos hmine, seen, if_pos hmine, List.cons.injEq]
      by_cases hclean : Clean r t
      · obtain ⟨hanswer, hV'⟩ := hown r t u hmine hV hclean
        rw [ih hV']
        exact ⟨fun h => ⟨fun _ => hclean, h.2⟩, fun h => ⟨hanswer, h.2⟩⟩
      · exact ⟨fun h => absurd h.1 (hbreach r t u hmine hV hclean), fun h => absurd (h.1 rfl) hclean⟩

/-! ## Two runs side by side -/

/-- Every pair of requests is clean in the states it is made in. -/
def CleanPairs (step : R → S → O × S) (Clean : R → S → R → S → Prop) (rs rs' : List R) (s s' : S) :
    Prop :=
  ∀ n r r', rs[n]? = some r → rs'[n]? = some r' →
    Clean r (after step (rs.take n) s) r' (after step (rs'.take n) s')

/-- Two runs show the same after each number of requests. -/
def ViewsEqual {β : Type} (step : R → S → O × S) (view : S → β) (rs rs' : List R) (s s' : S) :
    Prop :=
  ∀ n, view (after step (rs.take n) s) = view (after step (rs'.take n) s')

/-- **The rule for two runs.** -/
theorem views_eq_iff {β : Type} {view : S → β} {Same : R → R → Prop} {V : S → S → Prop}
    {Pair : R → S → R → S → Prop}
    (hkeep : ∀ r r' s s', Same r r' → V s s' → V (step r s).2 (step r' s').2)
    (hview : ∀ r r' s s', Same r r' → V s s' → view s = view s' →
      (view (step r s).2 = view (step r' s').2 ↔ Pair r s r' s'))
    {rs rs' : List R} (hsame : List.Forall₂ Same rs rs') {s s' : S} (hV : V s s')
    (hstart : view s = view s') :
    ViewsEqual step view rs rs' s s' ↔ CleanPairs step Pair rs rs' s s' := by
  induction hsame generalizing s s' with
  | nil => exact ⟨fun _ n r r' hr => by simp at hr, fun _ n => by simpa using hstart⟩
  | @cons r r' rs rs' hr _ ih =>
    have hfirst := hview r r' s s' hr hV hstart
    have hrest := fun hnext => ih (hkeep r r' s s' hr hV) hnext
    constructor
    · intro h
      have hnext : view (step r s).2 = view (step r' s').2 := by simpa using h 1
      intro n x x' hx hx'
      rcases n with _ | n
      · obtain rfl := Option.some.inj hx
        obtain rfl := Option.some.inj hx'
        exact hfirst.mp hnext
      · exact (hrest hnext).mp (fun n => by simpa using h (n + 1)) n x x' hx hx'
    · intro h n
      have hnext := hfirst.mpr (h 0 r r' rfl rfl)
      rcases n with _ | n
      · exact hstart
      · exact (hrest hnext).mpr (fun n x x' hx hx' => h (n + 1) x x' hx hx') n

end E2Mail.Lib
