import Mathlib.Order.Lattice.Nat
import Mathlib.Logic.Function.Basic

/-!
# Union-find

A forest over the numbers, in which no parent is above its child, so that a root is
the least member of its tree. `find` walks up to the root and halves the path on the
way; `union` puts the larger of two roots under the smaller.

* `Forest.root` — the root, by the parents alone;
* `find_spec` — `find` gives the root and changes none;
* `same_union` — after a union two numbers have one root just if they had, or if the
  union joined their trees.
-/

namespace E2Mail.Lib

/-- The least equivalence over another that relates two more elements. -/
def joinRel {α : Type} (r : α → α → Prop) (a b x y : α) : Prop :=
  r x y ∨ (r x a ∧ r b y) ∨ (r x b ∧ r a y)

theorem joinRel_le {α : Type} {r s : α → α → Prop} {a b x y : α} (hs : Equivalence s)
    (hr : ∀ x y, r x y → s x y) (hab : s a b) (h : joinRel r a b x y) : s x y := by
  obtain h | ⟨hxa, hby⟩ | ⟨hxb, hay⟩ := h
  · exact hr x y h
  · exact hs.trans (hr x a hxa) (hs.trans hab (hr b y hby))
  · exact hs.trans (hr x b hxb) (hs.trans (hs.symm hab) (hr a y hay))

/-- Parents that are never above their children. -/
structure Forest where
  /-- the parent; a root is its own -/
  parent : Nat → Nat
  /-- no parent is above its child -/
  le : ∀ x, parent x ≤ x

namespace Forest

/-- Every number by itself. -/
def discrete : Forest := ⟨id, fun _ => Nat.le_refl _⟩

/-- Gives a number a new parent. -/
def setParent (u : Forest) (x p : Nat) (h : p ≤ x) : Forest where
  parent := Function.update u.parent x p
  le y := by
    by_cases hy : y = x
    · subst hy
      rwa [Function.update_self]
    · rw [Function.update_of_ne hy]
      exact u.le y

theorem parent_setParent {u : Forest} {x p : Nat} {h : p ≤ x} (y : Nat) :
    (u.setParent x p h).parent y = if y = x then p else u.parent y := by
  simp only [setParent, Function.update_apply]

theorem grandparent_le (u : Forest) (x : Nat) : u.parent (u.parent x) ≤ x :=
  Nat.le_trans (u.le _) (u.le x)

/-- Puts a number under its grandparent. -/
def halve (u : Forest) (x : Nat) : Forest :=
  u.setParent x (u.parent (u.parent x)) (u.grandparent_le x)

theorem parent_halve {u : Forest} {x : Nat} : (u.halve x).parent x = u.parent (u.parent x) := by
  rw [halve, parent_setParent, if_pos rfl]

theorem halve_lt {u : Forest} {x : Nat} (h : u.parent x ≠ x) : (u.halve x).parent x < x := by
  rw [parent_halve]
  have hle := u.le x
  have hle' := u.le (u.parent x)
  omega

/-- Walks up to the root, and halves the path. -/
def find (u : Forest) (x : Nat) : Nat × Forest :=
  if _h : u.parent x = x then (x, u)
  else (u.halve x).find ((u.halve x).parent x)
termination_by x
decreasing_by exact halve_lt _h

/-- The walk on bare parents, for a number of turns at most. -/
def walk : Nat → (Nat → Nat) → Nat → Option (Nat × (Nat → Nat))
  | 0, _, _ => none
  | turns + 1, parent, x =>
    if parent x = x then some (x, parent)
    else
      let halved := Function.update parent x (parent (parent x))
      walk turns halved (halved x)

/-- **The walk ends**: every turn goes to a smaller number, so that as many turns as the
number, and one to see the root, are enough. -/
theorem walk_eq (u : Forest) {x turns : Nat} (h : x < turns) :
    walk turns u.parent x = some ((u.find x).1, (u.find x).2.parent) := by
  induction turns generalizing u x with
  | zero => exact absurd h (Nat.not_lt_zero x)
  | succ turns ih =>
    rw [walk, find]
    by_cases hself : u.parent x = x
    · rw [if_pos hself, dif_pos hself]
    · rw [if_neg hself, dif_neg hself]
      exact ih (u.halve x) (Nat.lt_of_lt_of_le (halve_lt hself) (Nat.le_of_lt_succ h))

/-- Joins the trees of two numbers. -/
def union (u : Forest) (a b : Nat) : Forest :=
  let ra := u.find a
  let rb := ra.2.find b
  if ra.1 = rb.1 then rb.2
  else rb.2.setParent (max ra.1 rb.1) (min ra.1 rb.1)
    (Nat.le_trans (Nat.min_le_left _ _) (Nat.le_max_left _ _))

/-! ## Roots -/

/-- The root of a number. -/
def root (u : Forest) (x : Nat) : Nat :=
  if _h : u.parent x = x then x else u.root (u.parent x)
termination_by x
decreasing_by
  have hle := u.le x
  omega

variable {u v : Forest} {x y a b : Nat}

theorem root_of_parent_self (h : u.parent x = x) : u.root x = x := by
  rw [root, dif_pos h]

theorem root_parent (u : Forest) (x : Nat) : u.root (u.parent x) = u.root x := by
  by_cases h : u.parent x = x
  · rw [h]
  · conv_rhs => rw [root, dif_neg h]

theorem parent_root (u : Forest) (x : Nat) : u.parent (u.root x) = u.root x := by
  induction x using Nat.strong_induction_on with
  | _ x ih =>
    by_cases h : u.parent x = x
    · rw [root_of_parent_self h, h]
    · rw [← root_parent]
      exact ih _ (Nat.lt_of_le_of_ne (u.le x) h)

/-- The root is the least of its tree. -/
theorem root_le (u : Forest) (x : Nat) : u.root x ≤ x := by
  induction x using Nat.strong_induction_on with
  | _ x ih =>
    by_cases h : u.parent x = x
    · rw [root_of_parent_self h]
    · rw [← root_parent]
      exact Nat.le_trans (ih _ (Nat.lt_of_le_of_ne (u.le x) h)) (u.le x)

theorem root_root (u : Forest) (x : Nat) : u.root (u.root x) = u.root x :=
  root_of_parent_self (u.parent_root x)

/-- Parents within the same tree, with the same roots their own parents, leave all
roots. -/
theorem root_congr (hself : ∀ x, v.parent x = x → u.parent x = x)
    (htree : ∀ x, u.root (v.parent x) = u.root x) (x : Nat) : v.root x = u.root x := by
  induction x using Nat.strong_induction_on with
  | _ x ih =>
    by_cases h : v.parent x = x
    · rw [root_of_parent_self h, root_of_parent_self (hself x h)]
    · rw [← root_parent, ih _ (Nat.lt_of_le_of_ne (v.le x) h), htree]

theorem root_halve (u : Forest) (x y : Nat) : (u.halve x).root y = u.root y := by
  refine root_congr (fun y h => ?_) (fun y => ?_) y
  · rw [halve, parent_setParent] at h
    by_cases hy : y = x
    · rw [if_pos hy] at h
      subst hy
      have hle := u.le y
      have hle' := u.le (u.parent y)
      omega
    · rwa [if_neg hy] at h
  · rw [halve, parent_setParent]
    by_cases hy : y = x
    · rw [if_pos hy, root_parent, root_parent, hy]
    · rw [if_neg hy, root_parent]

/-- **Find** gives the root, and changes none. -/
theorem find_spec (u : Forest) (x : Nat) :
    (u.find x).1 = u.root x ∧ ∀ y, (u.find x).2.root y = u.root y := by
  induction x using Nat.strong_induction_on generalizing u with
  | _ x ih =>
    rw [find]
    by_cases h : u.parent x = x
    · rw [dif_pos h]
      exact ⟨(root_of_parent_self h).symm, fun _ => rfl⟩
    · rw [dif_neg h]
      obtain ⟨hfst, hsnd⟩ := ih _ (halve_lt h) (u.halve x)
      refine ⟨?_, fun y => ?_⟩
      · rw [hfst, root_halve, parent_halve, root_parent, root_parent]
      · rw [hsnd, root_halve]

@[simp] theorem find_fst (u : Forest) (x : Nat) : (u.find x).1 = u.root x := (u.find_spec x).1

@[simp] theorem root_find (u : Forest) (x y : Nat) : (u.find x).2.root y = u.root y :=
  (u.find_spec x).2 y

/-- A root that is put under a smaller root takes its tree along. -/
theorem root_setParent {hi lo : Nat} (hhi : u.root hi = hi) (hlo : u.root lo = lo)
    (hlt : lo < hi) (h : lo ≤ hi) (y : Nat) :
    (u.setParent hi lo h).root y = if u.root y = hi then lo else u.root y := by
  induction y using Nat.strong_induction_on with
  | _ y ih =>
    by_cases hy : y = hi
    · subst hy
      have hparent : (u.setParent y lo h).parent y = lo := by rw [parent_setParent, if_pos rfl]
      rw [← root_parent, hparent, ih lo hlt, hlo, if_neg (Nat.ne_of_lt hlt), hhi, if_pos rfl]
    · have hparent : (u.setParent hi lo h).parent y = u.parent y := by
        rw [parent_setParent, if_neg hy]
      by_cases hself : u.parent y = y
      · rw [root_of_parent_self (hparent.trans hself), root_of_parent_self hself, if_neg hy]
      · rw [← root_parent, hparent, ih _ (Nat.lt_of_le_of_ne (u.le y) hself), root_parent]

/-- **Union**: the larger root gives way to the smaller. -/
theorem root_union (u : Forest) (a b y : Nat) : (u.union a b).root y =
    if u.root y = max (u.root a) (u.root b) then min (u.root a) (u.root b) else u.root y := by
  have hroots : ∀ z, ((u.find a).2.find b).2.root z = u.root z := fun z => by
    rw [root_find, root_find]
  rw [union]
  simp only [find_fst, root_find]
  by_cases hab : u.root a = u.root b
  · rw [if_pos hab, hroots, hab, Nat.max_self, Nat.min_self]
    by_cases hy : u.root y = u.root b
    · rw [if_pos hy, hy]
    · rw [if_neg hy]
  · rw [if_neg hab, root_setParent, hroots]
    · rw [hroots]
      rcases Nat.le_total (u.root a) (u.root b) with hle | hle
      · rw [Nat.max_eq_right hle, root_root]
      · rw [Nat.max_eq_left hle, root_root]
    · rw [hroots]
      rcases Nat.le_total (u.root a) (u.root b) with hle | hle
      · rw [Nat.min_eq_left hle, root_root]
      · rw [Nat.min_eq_right hle, root_root]
    · omega

/-! ## Trees -/

/-- Two numbers are in one tree. -/
def Same (u : Forest) (x y : Nat) : Prop := u.root x = u.root y

instance : DecidableRel u.Same := fun x y => inferInstanceAs (Decidable (u.root x = u.root y))

/-- **Union joins** two trees, and no others. -/
theorem same_union (u : Forest) (a b : Nat) : (u.union a b).Same = joinRel u.Same a b := by
  funext x y
  rw [eq_iff_iff, Same, joinRel, root_union, root_union]
  simp only [Same]
  generalize u.root x = rx
  generalize u.root y = ry
  generalize u.root a = ra
  generalize u.root b = rb
  split_ifs <;> omega

theorem same_find (u : Forest) (x : Nat) : (u.find x).2.Same = u.Same := by
  funext y z
  rw [Same, Same, root_find, root_find]

theorem same_discrete : discrete.Same = fun x y => x = y := by
  funext x y
  have hroot : ∀ z, discrete.root z = z := fun z => root_of_parent_self rfl
  rw [Same, hroot, hroot]

end Forest

end E2Mail.Lib
