import Mathlib.Logic.Function.Iterate

/-!
# Rounds until nothing changes

A function that makes its argument smaller, or leaves it as it is, comes to an end when it is
applied over and over. Two arguments that come to the same on the way have the same end; after a
bounded number of rounds they are the same just if the bound is enough for both, or they need the
same number.

* `Shrinking` — the function;
* `Shrinking.rounds` — how often it changes something;
* `iterate_eq_iff` — when a bounded number of rounds leaves the same of two arguments;
* `iterate_iterate_iff` — when it leaves nothing to do.
-/

namespace E2Mail.Lib

/-- A function that makes its argument smaller, or leaves it as it is. -/
structure Shrinking (α : Type) where
  /-- one round -/
  step : α → α
  size : α → Nat
  smaller : ∀ a, step a ≠ a → size (step a) < size a

namespace Shrinking

variable {α : Type} [DecidableEq α] (f : Shrinking α)

/-- How many rounds change something. -/
def rounds (a : α) : Nat := if _h : f.step a = a then 0 else rounds (f.step a) + 1
termination_by f.size a
decreasing_by exact f.smaller a _h

variable {f} {a b : α} {m n : Nat}

theorem rounds_of_eq (h : f.step a = a) : f.rounds a = 0 := by
  rw [rounds, dif_pos h]

theorem rounds_of_ne (h : f.step a ≠ a) : f.rounds a = f.rounds (f.step a) + 1 := by
  rw [rounds, dif_neg h]

theorem step_eq_iff : f.step a = a ↔ f.rounds a = 0 := by
  refine ⟨rounds_of_eq, fun h => ?_⟩
  by_contra hne
  rw [rounds_of_ne hne] at h
  omega

theorem rounds_step (a : α) : f.rounds (f.step a) = f.rounds a - 1 := by
  by_cases h : f.step a = a
  · rw [h, rounds_of_eq h]
  · rw [rounds_of_ne h, Nat.add_sub_cancel]

theorem rounds_iterate (n : Nat) (a : α) : f.rounds (f.step^[n] a) = f.rounds a - n := by
  induction n with
  | zero => rfl
  | succ n ih => rw [Function.iterate_succ_apply', rounds_step, ih, Nat.sub_sub]

/-- When all rounds are over, more of them change nothing. -/
theorem iterate_of_rounds_le (h : f.rounds a ≤ n) (m : Nat) :
    f.step^[m] (f.step^[n] a) = f.step^[n] a := by
  have hfixed : f.step (f.step^[n] a) = f.step^[n] a := by
    rw [step_eq_iff, rounds_iterate]
    omega
  exact Function.iterate_fixed hfixed m

/-- **The same is left** of two arguments that come to the same. -/
theorem iterate_eq_iff (h : f.step^[m] a = f.step^[n] b) {k : Nat} (hn : n ≤ k) :
    f.step^[k] a = f.step^[k] b ↔
      f.rounds a ≤ k ∧ f.rounds b ≤ k ∨ f.rounds a = f.rounds b := by
  have hrounds : f.rounds a - m = f.rounds b - n := by
    rw [← rounds_iterate, ← rounds_iterate, h]
  have hboth : f.rounds a ≤ k → f.rounds b ≤ k → f.step^[k] a = f.step^[k] b := by
    intro ha hb
    calc f.step^[k] a = f.step^[m] (f.step^[k] a) := (iterate_of_rounds_le ha m).symm
      _ = f.step^[k] (f.step^[m] a) := Function.Commute.iterate_iterate_self f.step m k a
      _ = f.step^[k] (f.step^[n] b) := by rw [h]
      _ = f.step^[n] (f.step^[k] b) := Function.Commute.iterate_iterate_self f.step k n b
      _ = f.step^[k] b := iterate_of_rounds_le hb n
  constructor
  · intro heq
    have hleft : f.rounds a - k = f.rounds b - k := by
      rw [← rounds_iterate, ← rounds_iterate, heq]
    omega
  · rintro (⟨ha, hb⟩ | heq)
    · exact hboth ha hb
    · by_cases ha : f.rounds a ≤ k
      · exact hboth ha (heq ▸ ha)
      · -- both still change, so they have come to the same after as many rounds
        obtain rfl : m = n := by omega
        obtain ⟨j, rfl⟩ := Nat.exists_eq_add_of_le' hn
        rw [Function.iterate_add_apply, Function.iterate_add_apply, h]

/-- **Nothing is left to do** after a number of rounds just if there are no more. -/
theorem iterate_iterate_iff (hn : 0 < n) :
    f.step^[n] (f.step^[n] a) = f.step^[n] a ↔ f.rounds a ≤ n := by
  refine ⟨fun h => ?_, fun h => iterate_of_rounds_le h n⟩
  have hleft : f.rounds a - n - n = f.rounds a - n := by
    rw [← rounds_iterate, ← rounds_iterate, h]
  omega

end Shrinking

end E2Mail.Lib
