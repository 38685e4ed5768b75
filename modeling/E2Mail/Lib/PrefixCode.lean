import Mathlib.Data.List.Basic

/-!
# Prefix codes

Words for letters, such that no word is the beginning of another. What is written in such
words is read back in one way, and so is the beginning of a text that goes on.
-/

namespace E2Mail.Lib

/-- Words for letters. Where two texts begin with words and are the same, the words are. -/
structure PrefixCode (α β : Type) where
  word : α → List β
  ne_nil : ∀ a, word a ≠ []
  unique : ∀ {a b x y}, word a ++ x = word b ++ y → a = b ∧ x = y

namespace PrefixCode

variable {α β : Type} (code : PrefixCode α β)

/-- The words of the letters, one after the other. -/
def encode (s : List α) : List β := s.flatMap code.word

variable {code} {s t : List α} {y : List β}

/-- **What begins with words** goes on with the words of the letters that are left. -/
theorem strip (h : code.encode t = code.encode s ++ y) : ∃ r, t = s ++ r ∧ y = code.encode r := by
  induction s generalizing t with
  | nil => exact ⟨t, rfl, h.symm⟩
  | cons a s ih =>
    cases t with
    | nil =>
      have hnil : code.word a ++ (code.encode s ++ y) = [] := by
        rw [← List.append_assoc]
        exact h.symm
      exact absurd (List.append_eq_nil_iff.mp hnil).1 (code.ne_nil a)
    | cons b t =>
      have hwords : code.word b ++ code.encode t = code.word a ++ (code.encode s ++ y) := by
        rw [← List.append_assoc]
        exact h
      obtain ⟨rfl, hrest⟩ := code.unique hwords
      obtain ⟨r, rfl, hy⟩ := ih hrest
      exact ⟨r, rfl, hy⟩

theorem encode_inj (h : code.encode t = code.encode s) : t = s := by
  obtain ⟨r, rfl, hr⟩ := strip (t := t) (s := s) (y := []) (by rw [h, List.append_nil])
  cases r with
  | nil => exact List.append_nil s
  | cons a r => exact absurd (List.append_eq_nil_iff.mp hr.symm).1 (code.ne_nil a)

end PrefixCode

end E2Mail.Lib
