import Mathlib.Data.List.Lex
import Mathlib.Data.Char
import Mathlib.Data.Nat.Digits.Defs

/-!
# Numbers of a fixed width

Numbers that are filled up with zeros to one width are in the order of their texts.

* `pad` — a number in decimal, filled up.
* `pad_append_lt_iff` — texts that begin with such numbers are compared by them first.
-/

namespace E2Mail.Lib.Stamp

/-- `%0wd` -/
def pad (w n : Nat) : List Char := List.leftpad w '0' (Nat.toDigits 10 n)

/-- The last `w` digits of a number. -/
def digits : Nat → Nat → List Char
  | 0, _ => []
  | w + 1, n => digits w (n / 10) ++ [(n % 10).digitChar]

section Order

variable {w a b : Nat} {s t : List Char}

theorem digits_zero (w : Nat) : digits w 0 = List.replicate w '0' := by
  induction w with
  | zero => rfl
  | succ w ih =>
    rw [digits, ih, List.replicate_succ']
    rfl

theorem leftpad_concat (w : Nat) (s : List Char) (c : Char) :
    List.leftpad (w + 1) '0' (s ++ [c]) = List.leftpad w '0' s ++ [c] := by
  rw [List.leftpad, List.leftpad, List.length_append, List.length_singleton, Nat.add_sub_add_right,
    List.append_assoc]

/-- A number that fits is filled up to the width. -/
theorem pad_eq {n : Nat} (h : n < 10 ^ w) (hw : 0 < w) : pad w n = digits w n := by
  induction w generalizing n with
  | zero => exact absurd hw (Nat.lt_irrefl 0)
  | succ w ih =>
    rw [digits, pad]
    rcases Nat.lt_or_ge n 10 with hlt | hge
    · rw [Nat.toDigits_of_lt_base hlt, Nat.div_eq_of_lt hlt, Nat.mod_eq_of_lt hlt, digits_zero]
      refine (leftpad_concat w [] _).trans ?_
      rw [List.leftpad, List.length_nil, Nat.sub_zero, List.append_nil]
    · have hdiv : n / 10 < 10 ^ w := Nat.div_lt_of_lt_mul (by rwa [Nat.mul_comm, ← Nat.pow_succ])
      have hw : 0 < w := by
        refine Nat.pos_of_ne_zero fun hzero => ?_
        rw [hzero] at hdiv
        omega
      rw [Nat.toDigits_of_base_le (by decide) hge, leftpad_concat, ← ih hdiv hw, pad]

theorem digitChar_lt_iff (ha : a < 10) (hb : b < 10) : a.digitChar < b.digitChar ↔ a < b := by
  have hall : ∀ a < 10, ∀ b < 10, a.digitChar < b.digitChar ↔ a < b := by decide
  exact hall a ha b hb

theorem digitChar_inj (ha : a < 10) (hb : b < 10) : a.digitChar = b.digitChar ↔ a = b := by
  have hall : ∀ a < 10, ∀ b < 10, a.digitChar = b.digitChar ↔ a = b := by decide
  exact hall a ha b hb

/-- **Texts that begin with numbers of one width** are in the order of the numbers first. -/
theorem digits_append_lt_iff (ha : a < 10 ^ w) (hb : b < 10 ^ w) :
    digits w a ++ s < digits w b ++ t ↔ a < b ∨ a = b ∧ s < t := by
  induction w generalizing a b s t with
  | zero =>
    rw [Nat.pow_zero, Nat.lt_one_iff] at ha hb
    rw [ha, hb, digits, List.nil_append, List.nil_append]
    simp
  | succ w ih =>
    have ha' : a / 10 < 10 ^ w := by
      rw [Nat.pow_succ] at ha
      exact Nat.div_lt_of_lt_mul (by rwa [Nat.mul_comm])
    have hb' : b / 10 < 10 ^ w := by
      rw [Nat.pow_succ] at hb
      exact Nat.div_lt_of_lt_mul (by rwa [Nat.mul_comm])
    have ha10 : a % 10 < 10 := Nat.mod_lt a (by decide)
    have hb10 : b % 10 < 10 := Nat.mod_lt b (by decide)
    rw [digits, digits, List.append_assoc, List.append_assoc, ih ha' hb', List.singleton_append,
      List.singleton_append, List.cons_lt_cons_iff, digitChar_lt_iff ha10 hb10,
      digitChar_inj ha10 hb10]
    constructor
    · rintro (hlt | ⟨heq, hlt | ⟨hmod, hst⟩⟩)
      · exact .inl (by omega)
      · exact .inl (by omega)
      · exact .inr ⟨by omega, hst⟩
    · rintro (hlt | ⟨rfl, hst⟩)
      · rcases Nat.lt_or_ge (a / 10) (b / 10) with hdiv | hdiv
        · exact .inl hdiv
        · exact .inr ⟨by omega, .inl (by omega)⟩
      · exact .inr ⟨rfl, .inr ⟨rfl, hst⟩⟩

theorem pad_append_lt_iff (hw : 0 < w) (ha : a < 10 ^ w) (hb : b < 10 ^ w) :
    pad w a ++ s < pad w b ++ t ↔ a < b ∨ a = b ∧ s < t := by
  rw [pad_eq ha hw, pad_eq hb hw, digits_append_lt_iff ha hb]

/-- What the texts share comes off. -/
theorem append_lt_append_iff {common : List Char} : common ++ s < common ++ t ↔ s < t := by
  induction common with
  | nil => exact Iff.rfl
  | cons c common ih =>
    rw [List.cons_append, List.cons_append, List.cons_lt_cons_iff, ih]
    constructor
    · rintro (hlt | ⟨-, hst⟩)
      · exact absurd hlt (Nat.lt_irrefl _)
      · exact hst
    · exact fun hst => .inr ⟨rfl, hst⟩

end Order

end E2Mail.Lib.Stamp
