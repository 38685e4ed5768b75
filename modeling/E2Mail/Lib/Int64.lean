import E2Mail.Lib.Paging
import Mathlib.Algebra.Order.Ring.Int

/-!
# Integers of 64 bits, and slices

Arithmetic of 64 bits keeps the exact result just if it is in range. A slice of a list is taken
between two such integers, and there is none where they are out of order or out of range.

* `wrap` — the integer of 64 bits for an exact result;
* `slice` — a part of a list;
* `Slice` — a list that lies in memory.
-/

namespace E2Mail.Lib

/-- The integer of 64 bits with the last 64 bits of an exact result, in two's complement. -/
def wrap (x : Int) : Int := (x + 2 ^ 63) % 2 ^ 64 - 2 ^ 63

theorem wrap_range (x : Int) : -2 ^ 63 ≤ wrap x ∧ wrap x < 2 ^ 63 := by
  rw [wrap]
  omega

/-- What is in range is kept. -/
theorem wrap_of_range {x : Int} (h : -2 ^ 63 ≤ x) (h' : x < 2 ^ 63) : wrap x = x := by
  rw [wrap]
  omega

variable {α : Type}

/-- The part of a list between two bounds. -/
def slice (l : List α) (lo hi : Int) : Option (List α) :=
  if 0 ≤ lo ∧ lo ≤ hi ∧ hi ≤ l.length then some ((l.take hi.toNat).drop lo.toNat) else none

theorem slice_of_neg {l : List α} {lo hi : Int} (h : lo < 0) : slice l lo hi = none := by
  rw [slice, if_neg]
  omega

/-- From a place on, so many items as there are, up to a limit. -/
theorem slice_window {l : List α} {n k : Nat} (hn : n ≤ l.length) :
    slice l n (min (n + k) l.length : Nat) = some ((l.drop n).take k) := by
  have hmin : min (n + k) l.length ≤ l.length := Nat.min_le_right _ _
  rw [slice, if_pos (by omega), Int.toNat_natCast, Int.toNat_natCast, List.drop_take]
  by_cases hk : n + k ≤ l.length
  · rw [Nat.min_eq_left hk, Nat.add_sub_cancel_left]
  · rw [Nat.min_eq_right (by omega), List.take_of_length_le (by rw [List.length_drop]),
      List.take_of_length_le (by rw [List.length_drop]; omega)]

/-- A list in memory: with addresses of 64 bits and items of four bytes or more there are fewer
than `2 ^ 62` of them. -/
structure Slice (α : Type) where
  /-- the items -/
  elems : List α
  /-- they lie in memory -/
  length_lt : elems.length < 2 ^ 62

end E2Mail.Lib
