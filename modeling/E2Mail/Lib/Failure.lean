import Mathlib.Data.List.Perm.Basic

/-!
# Computations that may fail

What a computation in `Except` did, if it gave a result.
-/

namespace E2Mail.Lib.Failure

variable {ε α β : Type}

theorem bind_eq_ok {x : Except ε α} {f : α → Except ε β} {b : β} (h : (x >>= f) = .ok b) :
    ∃ a, x = .ok a ∧ f a = .ok b := by
  cases x with
  | error e => cases h
  | ok a => exact ⟨a, rfl, h⟩

theorem mapError_eq_ok {x : Except ε α} {f : ε → β} {a : α} (h : x.mapError f = .ok a) : x = .ok a := by
  cases x with
  | error e => cases h
  | ok a' =>
    cases h
    rfl

variable {f : α → Except ε β} {l : List α} {l' : List β}

/-- **A list of computations** gives what each of them gives. -/
theorem forall₂_of_mapM (h : l.mapM f = .ok l') : List.Forall₂ (fun a b => f a = .ok b) l l' := by
  induction l generalizing l' with
  | nil =>
    cases h
    exact .nil
  | cons a l ih =>
    rw [List.mapM_cons] at h
    obtain ⟨b, hb, h⟩ := bind_eq_ok h
    obtain ⟨rest, hrest, h⟩ := bind_eq_ok h
    cases h
    exact .cons hb (ih hrest)

theorem mapM_of_forall₂ (h : List.Forall₂ (fun a b => f a = .ok b) l l') : l.mapM f = .ok l' := by
  induction h with
  | nil => rfl
  | cons hab _ ih =>
    rw [List.mapM_cons, hab, ih]
    rfl

/-- A list in another order gives the results in another order. -/
theorem mapM_perm {m : List α} (hperm : m.Perm l) (h : l.mapM f = .ok l') :
    ∃ m', m.mapM f = .ok m' ∧ m'.Perm l' := by
  obtain ⟨m', hall, hm'⟩ := List.perm_comp_forall₂ hperm (forall₂_of_mapM h)
  exact ⟨m', mapM_of_forall₂ hall, hm'⟩

theorem mem_of_mapM (h : l.mapM f = .ok l') {b : β} (hb : b ∈ l') : ∃ a ∈ l, f a = .ok b := by
  have hall := forall₂_of_mapM h
  clear h
  induction hall with
  | nil => cases hb
  | @cons a _ _ _ hab _ ih =>
    rcases List.mem_cons.mp hb with rfl | hb
    · exact ⟨a, List.mem_cons_self, hab⟩
    · obtain ⟨a', ha', hf⟩ := ih hb
      exact ⟨a', List.mem_cons_of_mem _ ha', hf⟩

/-- Where there is only one thing that each can give, that is what they give. -/
theorem eq_map_of_mapM {g : α → β} (hg : ∀ a b, f a = .ok b → b = g a) (h : l.mapM f = .ok l') :
    l' = l.map g := by
  have hall := forall₂_of_mapM h
  clear h
  induction hall with
  | nil => rfl
  | cons hab _ ih => rw [List.map_cons, ← hg _ _ hab, ih]

theorem mapM_ok {g : α → β} (h : ∀ a ∈ l, f a = .ok (g a)) : l.mapM f = .ok (l.map g) := by
  induction l with
  | nil => rfl
  | cons a l ih =>
    rw [List.mapM_cons, h a List.mem_cons_self, ih fun a' ha' => h a' (List.mem_cons_of_mem _ ha')]
    rfl

end E2Mail.Lib.Failure
