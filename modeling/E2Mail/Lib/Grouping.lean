import Mathlib.Algebra.BigOperators.Group.List.Lemmas
import Mathlib.Algebra.Order.Ring.Int
import Mathlib.Data.List.Dedup

/-!
# Grouping a list by a key

The elements of a list with one key make a group. There is a group for every key that occurs.

* `group`, `keys` — a group, and the keys.
* `existsUnique_group` — an element is in one group.
* `sum_countP_groups` — what is counted in every group adds up.
-/

namespace E2Mail.Lib

variable {α κ : Type} [DecidableEq κ] (key : α → κ)

/-- The elements with a key. -/
def group (l : List α) (k : κ) : List α := l.filter fun a => key a == k

/-- The keys that occur, each once. -/
def keys (l : List α) : List κ := (l.map key).dedup

variable {key}

theorem mem_group {l : List α} {k : κ} {a : α} : a ∈ group key l k ↔ a ∈ l ∧ key a = k := by
  rw [group, List.mem_filter, beq_iff_eq]

theorem mem_keys {l : List α} {k : κ} : k ∈ keys key l ↔ ∃ a ∈ l, key a = k := by
  rw [keys, List.mem_dedup, List.mem_map]

/-- **One group.** -/
theorem existsUnique_group {l : List α} {a : α} (ha : a ∈ l) :
    ∃! k, k ∈ keys key l ∧ a ∈ group key l k := by
  refine ⟨key a, ⟨mem_keys.2 ⟨a, ha, rfl⟩, mem_group.2 ⟨ha, rfl⟩⟩, ?_⟩
  rintro k ⟨-, hk⟩
  exact (mem_group.1 hk).2.symm

/-- An element that is counted is so in the group of its key, if that is among the keys. -/
theorem sum_countP_cons (p : α → Bool) (a : α) (l : List α) (ks : List κ) :
    (ks.map fun k => (group key (a :: l) k).countP p).sum =
      (ks.map fun k => (group key l k).countP p).sum + if p a then ks.count (key a) else 0 := by
  induction ks with
  | nil => simp
  | cons k ks ih =>
    rw [List.map_cons, List.map_cons, List.sum_cons, List.sum_cons, ih, List.count_cons, group,
      group, List.filter_cons]
    by_cases hk : key a = k
    · by_cases hp : p a = true <;> simp [hk, hp]
      omega
    · have hne : ¬k = key a := fun h => hk h.symm
      simp [hk, hne]
      omega

/-- **The counts add up.** -/
theorem sum_countP_groups (p : α → Bool) {l : List α} {ks : List κ} (hnodup : ks.Nodup)
    (hks : ∀ a ∈ l, key a ∈ ks) : (ks.map fun k => (group key l k).countP p).sum = l.countP p := by
  induction l with
  | nil => simp [group]
  | cons a l ih =>
    have hcount : ks.count (key a) = 1 :=
      List.count_eq_one_of_mem hnodup (hks a List.mem_cons_self)
    rw [sum_countP_cons, ih fun b hb => hks b (List.mem_cons_of_mem _ hb), List.countP_cons, hcount]

end E2Mail.Lib
