import Mathlib.Data.List.Nodup

/-!
# Numbered lists

A store that gives each item a number when it takes the item in, and never gives
a number twice: the items are in the order of their numbers, and the number that
comes next is above all of them. Items leave (`keep`) or change in place
(`modify`); new ones come at the end (`add`).

* `Numbered` — the store, with the order as a field;
* `numberFrom` — the items that a list becomes when it is taken in;
* `eq_of_append` — two ends of a list that the numbers tell apart.
-/

namespace E2Mail.Lib

/-- Items with strictly increasing positive numbers, and the number of the next. -/
structure Numbered (α : Type) where
  /-- the items, each under its number -/
  items : List (Nat × α)
  /-- the next number to give -/
  next : Nat
  /-- the items are in the order of their numbers -/
  increasing : items.Pairwise fun p q => p.1 < q.1
  /-- every number has been given already -/
  below : ∀ p ∈ items, p.1 < next
  /-- numbers start at one -/
  positive : ∀ p ∈ items, 0 < p.1
  /-- so does the next one -/
  next_pos : 0 < next

/-- The items of a list under the numbers from `n` on. -/
def numberFrom {α : Type} (n : Nat) : List α → List (Nat × α)
  | [] => []
  | a :: l => (n, a) :: numberFrom (n + 1) l

section NumberFrom

variable {α : Type}

@[simp] theorem map_snd_numberFrom (n : Nat) (l : List α) :
    (numberFrom n l).map (·.2) = l := by
  induction l generalizing n with
  | nil => rfl
  | cons a l ih => rw [numberFrom, List.map_cons, ih]

@[simp] theorem length_numberFrom (n : Nat) (l : List α) :
    (numberFrom n l).length = l.length := by
  have h := congrArg List.length (map_snd_numberFrom n l)
  rwa [List.length_map] at h

theorem numberFrom_eq_nil {n : Nat} {l : List α} : numberFrom n l = [] ↔ l = [] := by
  rw [← List.length_eq_zero_iff, length_numberFrom, List.length_eq_zero_iff]

theorem le_of_mem_numberFrom {n : Nat} {l : List α} {p : Nat × α} (h : p ∈ numberFrom n l) :
    n ≤ p.1 ∧ p.1 < n + l.length := by
  induction l generalizing n with
  | nil => cases h
  | cons a l ih =>
    rw [numberFrom, List.mem_cons] at h
    rw [List.length_cons]
    rcases h with rfl | h
    · exact ⟨Nat.le_refl n, by omega⟩
    · have := ih h
      omega

theorem pairwise_numberFrom (n : Nat) (l : List α) :
    (numberFrom n l).Pairwise fun p q => p.1 < q.1 := by
  induction l generalizing n with
  | nil => exact List.Pairwise.nil
  | cons a l ih =>
    rw [numberFrom, List.pairwise_cons]
    refine ⟨fun q hq => ?_, ih (n + 1)⟩
    have := le_of_mem_numberFrom hq
    omega

end NumberFrom

namespace Numbered

variable {α : Type}

/-- The store before anything came in. -/
def empty : Numbered α where
  items := []
  next := 1
  increasing := List.Pairwise.nil
  below := by simp
  positive := by simp
  next_pos := by omega

/-- Takes a list in, at the end. -/
def add (l : List α) (t : Numbered α) : Numbered α where
  items := t.items ++ numberFrom t.next l
  next := t.next + l.length
  increasing := by
    refine List.pairwise_append.mpr ⟨t.increasing, pairwise_numberFrom t.next l, ?_⟩
    intro p hp q hq
    have hlt := t.below p hp
    have hle := le_of_mem_numberFrom hq
    omega
  below := by
    intro p hp
    rcases List.mem_append.mp hp with hp | hp
    · have hlt := t.below p hp
      omega
    · exact (le_of_mem_numberFrom hp).2
  positive := by
    intro p hp
    rcases List.mem_append.mp hp with hp | hp
    · exact t.positive p hp
    · have hle := le_of_mem_numberFrom hp
      have hpos := t.next_pos
      omega
  next_pos := by
    have hpos := t.next_pos
    omega

/-- Keeps the items with the property; the numbers of the others are not given again. -/
def keep (p : Nat × α → Bool) (t : Numbered α) : Numbered α where
  items := t.items.filter p
  next := t.next
  increasing := t.increasing.filter p
  below := fun q hq => t.below q (List.mem_of_mem_filter hq)
  positive := fun q hq => t.positive q (List.mem_of_mem_filter hq)
  next_pos := t.next_pos

/-- Changes items in place. -/
def modify (f : Nat → α → α) (t : Numbered α) : Numbered α where
  items := t.items.map fun p => (p.1, f p.1 p.2)
  next := t.next
  increasing := by
    rw [List.pairwise_map]
    exact t.increasing
  below := by
    intro q hq
    obtain ⟨p, hp, rfl⟩ := List.mem_map.mp hq
    exact t.below p hp
  positive := by
    intro q hq
    obtain ⟨p, hp, rfl⟩ := List.mem_map.mp hq
    exact t.positive p hp
  next_pos := t.next_pos

@[simp] theorem items_empty : (empty : Numbered α).items = [] := rfl

@[simp] theorem items_add (l : List α) (t : Numbered α) :
    (t.add l).items = t.items ++ numberFrom t.next l := rfl

@[simp] theorem next_add (l : List α) (t : Numbered α) : (t.add l).next = t.next + l.length := rfl

@[simp] theorem items_keep (p : Nat × α → Bool) (t : Numbered α) :
    (t.keep p).items = t.items.filter p := rfl

@[simp] theorem next_keep (p : Nat × α → Bool) (t : Numbered α) : (t.keep p).next = t.next := rfl

@[simp] theorem items_modify (f : Nat → α → α) (t : Numbered α) :
    (t.modify f).items = t.items.map fun p => (p.1, f p.1 p.2) := rfl

@[simp] theorem next_modify (f : Nat → α → α) (t : Numbered α) : (t.modify f).next = t.next := rfl

/-- The numbers of the items. -/
def numbers (t : Numbered α) : List Nat := t.items.map Prod.fst

theorem nodup_numbers (t : Numbered α) : t.numbers.Nodup := by
  rw [numbers, List.Nodup, List.pairwise_map]
  exact t.increasing.imp fun hlt => Nat.ne_of_lt hlt

/-- A number names one item. -/
theorem eq_of_number {t : Numbered α} {p q : Nat × α} (hp : p ∈ t.items) (hq : q ∈ t.items)
    (h : p.1 = q.1) : p = q :=
  List.inj_on_of_nodup_map t.nodup_numbers hp hq h

theorem mem_numbers {t : Numbered α} {n : Nat} : n ∈ t.numbers ↔ ∃ p ∈ t.items, p.1 = n :=
  List.mem_map

theorem number_lt_next {t : Numbered α} {n : Nat} (h : n ∈ t.numbers) : n < t.next := by
  obtain ⟨p, hp, rfl⟩ := mem_numbers.mp h
  exact t.below p hp

/-- The items that come in have numbers that were not given before. -/
theorem mem_numbers_add {l : List α} {t : Numbered α} {n : Nat} (h : n ∈ (t.add l).numbers) :
    n ∈ t.numbers ∨ t.next ≤ n := by
  obtain ⟨p, hp, rfl⟩ := mem_numbers.mp h
  rcases List.mem_append.mp hp with hp | hp
  · exact .inl (mem_numbers.mpr ⟨p, hp, rfl⟩)
  · exact .inr (le_of_mem_numberFrom hp).1

theorem mem_numbers_keep {q : Nat × α → Bool} {t : Numbered α} {n : Nat}
    (h : n ∈ (t.keep q).numbers) : n ∈ t.numbers := by
  obtain ⟨p, hp, rfl⟩ := mem_numbers.mp h
  exact mem_numbers.mpr ⟨p, List.mem_of_mem_filter hp, rfl⟩

end Numbered

/-- Lists in two parts, the numbers of the first below `n` and those of the second
from `n` on, are equal only part by part. -/
theorem eq_of_append {α : Type} {n : Nat} {a b c d : List (Nat × α)} (ha : ∀ p ∈ a, p.1 < n)
    (hb : ∀ p ∈ b, n ≤ p.1) (hc : ∀ p ∈ c, p.1 < n) (hd : ∀ p ∈ d, n ≤ p.1)
    (h : a ++ b = c ++ d) : a = c ∧ b = d := by
  have hfst : ∀ x y : List (Nat × α), (∀ p ∈ x, p.1 < n) → (∀ p ∈ y, n ≤ p.1) →
      (x ++ y).filter (fun p => decide (p.1 < n)) = x := by
    intro x y hx hy
    rw [List.filter_append, List.filter_eq_self.mpr fun p hp => decide_eq_true (hx p hp),
      List.filter_eq_nil_iff.mpr fun p hp => by have := hy p hp; simp; omega, List.append_nil]
  have hac : a = c := by rw [← hfst a b ha hb, h, hfst c d hc hd]
  rw [hac] at h
  exact ⟨hac, List.append_cancel_left h⟩

end E2Mail.Lib
