import Mathlib.Data.List.Basic
import Mathlib.Data.Nat.Init

/-!
# Decimal numbers

Numbers as they are written on the wire, and how they are read back.

* `decimal` — a number written in digits;
* `parseDecimal` — digits read as a number;
* `parseDecimal_decimal` — what is written is read back.
-/

namespace E2Mail.Lib

/-- A number in decimal digits. -/
def decimal (n : Nat) : List UInt8 := (Nat.toDigits 10 n).map fun c => c.toNat.toUInt8

/-- `'0'` to `'9'`. -/
def isDecimalDigit (b : UInt8) : Bool := 48 ≤ b && b ≤ 57

/-- The number that a text in digits stands for; `before` is what has been read of it. -/
def readDecimal : Nat → List UInt8 → Option Nat
  | before, [] => some before
  | before, b :: s => if isDecimalDigit b then readDecimal (10 * before + (b.toNat - 48)) s else none

/-- A nonempty text in digits, as a number. -/
def parseDecimal (s : List UInt8) : Option Nat := if s = [] then none else readDecimal 0 s

theorem decimal_lt {n : Nat} (h : n < 10) : decimal n = [(48 + n).toUInt8] := by
  have hall : ∀ n < 10, [n.digitChar.toNat.toUInt8] = [(48 + n).toUInt8] := by decide
  rw [decimal, Nat.toDigits_of_lt_base h]
  exact hall n h

theorem decimal_step {n : Nat} (h : 10 ≤ n) : decimal n = decimal (n / 10) ++ decimal (n % 10) := by
  rw [decimal, decimal, decimal, Nat.toDigits_of_base_le (by decide) h,
    Nat.toDigits_of_lt_base (Nat.mod_lt n (by decide)), List.map_append]

theorem decimal_ne_nil (n : Nat) : decimal n ≠ [] := by
  by_cases h : n < 10
  · rw [decimal_lt h]
    exact List.cons_ne_nil _ _
  · rw [decimal_step (Nat.le_of_not_lt h), decimal_lt (Nat.mod_lt n (by decide))]
    exact fun heq => List.cons_ne_nil _ _ (List.append_eq_nil_iff.mp heq).2

/-- A number is written in nothing but digits. -/
theorem isDecimalDigit_decimal {n : Nat} {b : UInt8} (h : b ∈ decimal n) :
    isDecimalDigit b = true := by
  have hall : ∀ n < 10, isDecimalDigit (48 + n).toUInt8 = true := by decide
  induction n using Nat.strongRecOn with
  | _ n ih =>
    by_cases hn : n < 10
    · rw [decimal_lt hn] at h
      rw [List.mem_singleton.mp h]
      exact hall n hn
    · rw [decimal_step (Nat.le_of_not_lt hn)] at h
      obtain h | h := List.mem_append.mp h
      · exact ih (n / 10) (Nat.div_lt_self (by omega) (by decide)) h
      · exact ih (n % 10) (by omega) h

theorem readDecimal_append {before n : Nat} {s t : List UInt8} (h : readDecimal before s = some n) :
    readDecimal before (s ++ t) = readDecimal n t := by
  induction s generalizing before with
  | nil =>
    rw [readDecimal, Option.some_inj] at h
    rw [h, List.nil_append]
  | cons b s ih =>
    rw [readDecimal] at h
    split at h
    · rename_i hb
      rw [List.cons_append, readDecimal, if_pos hb]
      exact ih h
    · cases h

theorem readDecimal_digit {before n : Nat} (h : n < 10) :
    readDecimal before (decimal n) = some (10 * before + n) := by
  have hall : ∀ n < 10, isDecimalDigit (48 + n).toUInt8 = true ∧ (48 + n).toUInt8.toNat - 48 = n := by
    decide
  obtain ⟨hdigit, hvalue⟩ := hall n h
  rw [decimal_lt h, readDecimal, if_pos hdigit, hvalue, readDecimal]

/-- **What is written is read back.** -/
theorem parseDecimal_decimal (n : Nat) : parseDecimal (decimal n) = some n := by
  rw [parseDecimal, if_neg (decimal_ne_nil n)]
  induction n using Nat.strongRecOn with
  | _ n ih =>
    by_cases h : n < 10
    · rw [readDecimal_digit h, Nat.mul_zero, Nat.zero_add]
    · have hle : 10 ≤ n := Nat.le_of_not_lt h
      rw [decimal_step hle, readDecimal_append (ih (n / 10) (Nat.div_lt_self (by omega) (by decide))),
        readDecimal_digit (Nat.mod_lt n (by decide)), Option.some_inj]
      omega

theorem decimal_injective {m n : Nat} (h : decimal m = decimal n) : m = n := by
  have hread := parseDecimal_decimal m
  rw [h, parseDecimal_decimal] at hread
  exact (Option.some.inj hread).symm

end E2Mail.Lib
