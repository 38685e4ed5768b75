import E2Mail.Lib.Prog

/-!
# Two signatures side by side

A system that grows keeps the programs it has. A program over one signature is
a program over the larger one whose operations are those of two signatures side
by side: it makes the same calls, and none of the new ones.

* `Prog.left` — the same program over the larger signature;
* `lefts` — what a history holds of the old signature;
* `Prog.Only.left`, `Along.left` — what was known of a program's calls stays
  known.
-/

namespace E2Mail.Lib

variable {Op₁ Op₂ : Type} {Ans₁ : Op₁ → Type} {Ans₂ : Op₂ → Type} {α β : Type}

/-- The answers of two signatures side by side. -/
@[reducible] def Both (Ans₁ : Op₁ → Type) (Ans₂ : Op₂ → Type) : Op₁ ⊕ Op₂ → Type
  | .inl o => Ans₁ o
  | .inr o => Ans₂ o

/-! ## Programs -/

namespace Prog

/-- The program over the larger signature. -/
def left : Prog Op₁ Ans₁ α → Prog (Op₁ ⊕ Op₂) (Both Ans₁ Ans₂) α
  | ret a => ret a
  | call o k => call (.inl o) fun r => (k r).left

@[simp] theorem left_ret (a : α) :
    (ret a : Prog Op₁ Ans₁ α).left = (ret a : Prog (Op₁ ⊕ Op₂) (Both Ans₁ Ans₂) α) := rfl

@[simp] theorem left_call (o : Op₁) (k : Ans₁ o → Prog Op₁ Ans₁ α) :
    ((call o k).left : Prog (Op₁ ⊕ Op₂) (Both Ans₁ Ans₂) α) =
      call (.inl o) fun r => (k r).left := rfl

/-- A program over the larger signature makes calls of the old one only. -/
theorem Only.left {q : Op₁ → Prop} {p : Prog Op₁ Ans₁ α} (hp : p.Only q) :
    (p.left : Prog (Op₁ ⊕ Op₂) (Both Ans₁ Ans₂) α).Only fun o => ∃ o₁, o = .inl o₁ ∧ q o₁ := by
  induction p with
  | ret a => trivial
  | call o k ih => exact ⟨⟨o, rfl, hp.1⟩, fun r => ih r (hp.2 r)⟩

end Prog

/-! ## Histories -/

/-- The call and answer of the old signature, if it is one. -/
def leftEvent : Event (Op₁ ⊕ Op₂) (Both Ans₁ Ans₂) → Option (Event Op₁ Ans₁)
  | ⟨.inl o, r⟩ => some ⟨o, r⟩
  | ⟨.inr _, _⟩ => none

/-- What a history holds of the old signature. -/
def lefts (h : List (Event (Op₁ ⊕ Op₂) (Both Ans₁ Ans₂))) : List (Event Op₁ Ans₁) :=
  h.filterMap leftEvent

variable {h : List (Event (Op₁ ⊕ Op₂) (Both Ans₁ Ans₂))}

@[simp] theorem lefts_nil : lefts ([] : List (Event (Op₁ ⊕ Op₂) (Both Ans₁ Ans₂))) = [] := rfl

@[simp] theorem lefts_snoc (o : Op₁) (r : Ans₁ o) :
    lefts (h ++ [(⟨.inl o, r⟩ : Event (Op₁ ⊕ Op₂) (Both Ans₁ Ans₂))]) = lefts h ++ [⟨o, r⟩] := by
  rw [lefts, List.filterMap_append]
  rfl

theorem mem_lefts {o : Op₁} {r : Ans₁ o} :
    (⟨o, r⟩ : Event Op₁ Ans₁) ∈ lefts h ↔
      (⟨.inl o, r⟩ : Event (Op₁ ⊕ Op₂) (Both Ans₁ Ans₂)) ∈ h := by
  rw [lefts, List.mem_filterMap]
  constructor
  · rintro ⟨⟨o', r'⟩, hv, hev⟩
    cases o' with
    | inl o' =>
      cases hev
      exact hv
    | inr o' => cases hev
  · intro hv
    exact ⟨_, hv, rfl⟩

variable {P : List (Event Op₁ Ans₁) → Op₁ → Prop} {Q : List (Event Op₁ Ans₁) → α → Prop}

/-- What holds along a program holds along it in the larger system. -/
theorem Along.left {p : Prog Op₁ Ans₁ α} (ha : Along P Q p (lefts h)) :
    Along (fun h o => ∃ o₁, o = .inl o₁ ∧ P (lefts h) o₁) (fun h a => Q (lefts h) a)
      (p.left : Prog (Op₁ ⊕ Op₂) (Both Ans₁ Ans₂) α) h := by
  induction p generalizing h with
  | ret a => exact ha
  | call o k ih =>
    refine ⟨⟨o, rfl, ha.1⟩, fun r => ih r ?_⟩
    rw [lefts_snoc]
    exact ha.2 r

end E2Mail.Lib
