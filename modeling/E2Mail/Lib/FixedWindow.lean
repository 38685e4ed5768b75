import Mathlib.Data.List.Basic
import Mathlib.Algebra.Order.Ring.Int

/-!
# Fixed windows

Events that are counted in windows of a fixed width. A window begins with an event, when the
one before is over, and has room for a number of events. Any stretch of time that is as wide
as a window meets two of them at most.
-/

namespace E2Mail.Lib.FixedWindow

/-- How many of the times are in an interval. -/
def within (times : List Int) (t u : Int) : Nat := times.countP fun a => t ≤ a ∧ a < u

/-- How many of the times are not before another. -/
def since (times : List Int) (t : Int) : Nat := times.countP fun a => t ≤ a

variable {times : List Int} {s t u w now : Int} {max : Nat}

theorem within_le_since : within times t u ≤ since times t :=
  List.countP_mono_left fun a _ h => by simp at h ⊢; exact h.1

theorem since_mono (h : s ≤ t) : since times t ≤ since times s :=
  List.countP_mono_left fun a _ ha => by simp at ha ⊢; omega

theorem within_mono (h : s ≤ t) : within times t u ≤ within times s u :=
  List.countP_mono_left fun a _ ha => by simp at ha ⊢; omega

theorem within_split (times : List Int) (t s u : Int) :
    within times t u ≤ within times t s + since times s := by
  induction times with
  | nil => simp [within, since]
  | cons a times ih =>
    simp only [within, since, List.countP_cons, decide_eq_true_eq] at ih ⊢
    split <;> split <;> split <;> omega

theorem within_concat :
    within (times ++ [now]) t u = within times t u + if t ≤ now ∧ now < u then 1 else 0 := by
  simp [within, List.countP_append, List.countP_singleton]

theorem since_concat : since (times ++ [now]) t = since times t + if t ≤ now then 1 else 0 := by
  simp [since, List.countP_append, List.countP_singleton]

/-- The events so far, where the last window began at `s`. -/
structure InWindows (w : Int) (max : Nat) (times : List Int) (s : Int) : Prop where
  inside : ∀ a ∈ times, a < s + w
  current : since times s ≤ max
  previous : within times (s - w) s ≤ max
  bound : ∀ t, within times t (t + w) ≤ 2 * max

theorem inWindows_nil (s : Int) : InWindows w max [] s :=
  ⟨nofun, Nat.zero_le _, Nat.zero_le _, fun _ => Nat.zero_le _⟩

/-- What comes after a window is not in it. -/
theorem InWindows.since_eq_zero (h : InWindows w max times s) (hover : s + w ≤ now) :
    since times now = 0 := by
  rw [since, List.countP_eq_zero]
  intro a ha
  have hlt := h.inside a ha
  simp
  omega

/-- **The next window** begins with an event, when the last one is over. -/
theorem InWindows.next (h : InWindows w max times s) (hw : 0 < w) (hmax : 0 < max) (hover : s + w ≤ now) :
    InWindows w max (times ++ [now]) now := by
  have hlast : since times (now - w) ≤ max := (since_mono (by omega)).trans h.current
  refine ⟨?_, ?_, ?_, ?_⟩
  · intro a ha
    rcases List.mem_append.mp ha with ha | ha
    · have hlt := h.inside a ha
      omega
    · rw [List.mem_singleton.mp ha]
      omega
  · rw [since_concat, h.since_eq_zero hover, if_pos (le_refl now)]
    omega
  · rw [within_concat, if_neg (by omega)]
    exact within_le_since.trans hlast
  · intro t
    rw [within_concat]
    split
    · have hafter : within times t (t + w) ≤ since times (now - w) :=
        within_le_since.trans (since_mono (by omega))
      omega
    · exact h.bound t

/-- **Another event** of the window, which has room for it. -/
theorem InWindows.again (h : InWindows w max times s) (hs : s ≤ now) (hnow : now < s + w)
    (hroom : since times s < max) : InWindows w max (times ++ [now]) s := by
  have hcurrent : since (times ++ [now]) s ≤ max := by
    rw [since_concat, if_pos hs]
    omega
  have hprevious : within (times ++ [now]) (s - w) s ≤ max := by
    rw [within_concat, if_neg (by omega)]
    exact h.previous
  refine ⟨?_, hcurrent, hprevious, ?_⟩
  · intro a ha
    rcases List.mem_append.mp ha with ha | ha
    · exact h.inside a ha
    · rwa [List.mem_singleton.mp ha]
  · intro t
    by_cases ht : t ≤ now ∧ now < t + w
    · rcases Int.lt_or_le t s with hlt | hle
      · -- what is before this window is of the last one
        have hsplit := within_split (times ++ [now]) t s (t + w)
        have hbefore : within (times ++ [now]) t s ≤ max := (within_mono (by omega)).trans hprevious
        omega
      · have hafter : within (times ++ [now]) t (t + w) ≤ since (times ++ [now]) s :=
          within_le_since.trans (since_mono hle)
        omega
    · rw [within_concat, if_neg ht]
      exact h.bound t

end E2Mail.Lib.FixedWindow
