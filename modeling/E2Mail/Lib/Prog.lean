import Mathlib.Data.List.Basic
import Mathlib.Logic.Function.Basic

/-!
# Programs over a signature of atomic calls

A request handler is a program whose only contact with the world are calls to
stores and services, each of which is atomic. Three layers:

* `Prog Op Ans α` — the free monad over a signature: operations `Op`, and for
  each operation `o` the type `Ans o` of its answers. A program decides on the
  answers alone, so the same program can be run uninterrupted or interleaved
  with others.
* `Prog.eval` — the uninterrupted run of one program, where a call is a
  function of the state.
* `Only` — the calls a program may make at all.
* `Path` and `Along` — the calls and answers a program has behind it, and what
  can be said of every call a program makes from its own history, whatever the
  answers were.
-/

namespace E2Mail.Lib

variable {Op : Type} {Ans : Op → Type} {S α β : Type}

/-! ## The free monad -/

/-- Programs over the signature `(Op, Ans)` with result type `α`. -/
inductive Prog (Op : Type) (Ans : Op → Type) (α : Type) : Type where
  /-- stop with a result -/
  | ret : α → Prog Op Ans α
  /-- perform one atomic call and continue with its answer -/
  | call : (o : Op) → (Ans o → Prog Op Ans α) → Prog Op Ans α

namespace Prog

/-- Graft a continuation onto every result. -/
protected def bind : Prog Op Ans α → (α → Prog Op Ans β) → Prog Op Ans β
  | ret a, f => f a
  | call o k, f => call o fun r => (k r).bind f

/-- A single call. -/
def perform (o : Op) : Prog Op Ans (Ans o) := call o ret

instance : Monad (Prog Op Ans) where
  pure := ret
  bind := Prog.bind

@[simp] theorem pure_eq (a : α) : (pure a : Prog Op Ans α) = ret a := rfl

@[simp] theorem ret_bind (a : α) (f : α → Prog Op Ans β) : ret a >>= f = f a := rfl

@[simp] theorem call_bind (o : Op) (k : Ans o → Prog Op Ans α) (f : α → Prog Op Ans β) :
    call o k >>= f = call o fun r => k r >>= f := rfl

@[simp] theorem perform_bind (o : Op) (f : Ans o → Prog Op Ans β) :
    (perform o : Prog Op Ans (Ans o)) >>= f = call o f := rfl

/-- The program has nothing left to do. -/
def isRet : Prog Op Ans α → Bool
  | ret _ => true
  | call _ _ => false

theorem isRet_iff {p : Prog Op Ans α} : p.isRet = true ↔ ∃ a, p = ret a := by
  cases p with
  | ret a => exact ⟨fun _ => ⟨a, rfl⟩, fun _ => rfl⟩
  | call o k =>
    refine ⟨fun h => absurd h Bool.false_ne_true, ?_⟩
    rintro ⟨a, ⟨⟩⟩

/-! ## Uninterrupted runs -/

/-- Run a program to its end without interference, each call being a function
of the state. -/
def eval (exec : (o : Op) → S → Ans o × S) : Prog Op Ans α → S → α × S
  | ret a, s => (a, s)
  | call o k, s => (k (exec o s).1).eval exec (exec o s).2

variable {exec : (o : Op) → S → Ans o × S}

@[simp] theorem eval_ret (a : α) (s : S) : (ret a : Prog Op Ans α).eval exec s = (a, s) := rfl

@[simp] theorem eval_call (o : Op) (k : Ans o → Prog Op Ans α) (s : S) :
    (call o k).eval exec s = (k (exec o s).1).eval exec (exec o s).2 := rfl

@[simp] theorem eval_perform (o : Op) (s : S) :
    (perform o : Prog Op Ans (Ans o)).eval exec s = exec o s := rfl

/-- Sequencing runs the continuation from where the first program stopped. -/
@[simp] theorem eval_bind (p : Prog Op Ans α) (f : α → Prog Op Ans β) (s : S) :
    (p >>= f).eval exec s = (f (p.eval exec s).1).eval exec (p.eval exec s).2 := by
  induction p generalizing s with
  | ret a => rfl
  | call o k ih => exact ih _ _

/-! ## The calls of a program -/

/-- Every call the program may make satisfies `p`. -/
def Only (p : Op → Prop) : Prog Op Ans α → Prop
  | ret _ => True
  | call o k => p o ∧ ∀ r, (k r).Only p

variable {p p' : Op → Prop}

@[simp] theorem only_ret (a : α) : (ret a : Prog Op Ans α).Only p := trivial

@[simp] theorem only_call (o : Op) (k : Ans o → Prog Op Ans α) :
    (call o k).Only p ↔ p o ∧ ∀ r, (k r).Only p := Iff.rfl

theorem Only.mono {q : Prog Op Ans α} (h : q.Only p) (hp : ∀ o, p o → p' o) : q.Only p' := by
  induction q with
  | ret a => trivial
  | call o k ih => exact ⟨hp o h.1, fun r => ih r (h.2 r)⟩

/-- A call, then the rest. -/
theorem Only.step {o : Op} {f : Ans o → Prog Op Ans α} (ho : p o) (hf : ∀ r, (f r).Only p) :
    (perform o >>= f).Only p := ⟨ho, hf⟩

theorem Only.bind {q : Prog Op Ans α} {f : α → Prog Op Ans β} (hq : q.Only p)
    (hf : ∀ a, (f a).Only p) : (q >>= f).Only p := by
  induction q with
  | ret a => exact hf a
  | call o k ih => exact ⟨hq.1, fun r => ih r (hq.2 r)⟩

end Prog

/-! ## Postconditions of uninterrupted runs -/

section Post

variable {exec : (o : Op) → S → Ans o × S}

/-- What holds of the result and the final state of an uninterrupted run. -/
def Post (exec : (o : Op) → S → Ans o × S) (Q : α → S → Prop) (p : Prog Op Ans α) (s : S) : Prop :=
  Q (p.eval exec s).1 (p.eval exec s).2

theorem Post.ret {Q : α → S → Prop} {a : α} {s : S} (h : Q a s) :
    Post exec Q (pure a : Prog Op Ans α) s := h

/-- A call, then the rest. -/
theorem Post.step {Q : α → S → Prop} {o : Op} {f : Ans o → Prog Op Ans α} {s : S}
    (h : Post exec Q (f (exec o s).1) (exec o s).2) : Post exec Q (Prog.perform o >>= f) s := h

theorem Post.mono {Q R : α → S → Prop} {p : Prog Op Ans α} {s : S} (h : Post exec R p s)
    (hQ : ∀ a s', R a s' → Q a s') : Post exec Q p s :=
  hQ _ _ h

/-- Sequencing: the rest starts from what the first program leaves. -/
theorem Post.bind {Q : α → S → Prop} {R : β → S → Prop} {p : Prog Op Ans β}
    {f : β → Prog Op Ans α} {s : S} (hp : Post exec R p s)
    (hf : ∀ b s', R b s' → Post exec Q (f b) s') : Post exec Q (p >>= f) s := by
  have hrest := hf _ _ hp
  rw [Post, Prog.eval_bind]
  exact hrest

end Post

/-! ## Histories -/

/-- One call with its answer. -/
abbrev Event (Op : Type) (Ans : Op → Type) : Type := Σ o : Op, Ans o

/-- `Path p h q`: with the calls and answers `h` behind it, `p` has become `q`. -/
inductive Path : Prog Op Ans α → List (Event Op Ans) → Prog Op Ans α → Prop where
  /-- nothing done yet -/
  | nil (p : Prog Op Ans α) : Path p [] p
  /-- one more call, answered `r` -/
  | snoc {p : Prog Op Ans α} {h : List (Event Op Ans)} {o : Op} {k : Ans o → Prog Op Ans α}
      (hp : Path p h (.call o k)) (r : Ans o) : Path p (h ++ [⟨o, r⟩]) (k r)

/-- `Along P Q p h`: from the history `h` on, and whatever the answers are,
every call `o` that `p` makes satisfies `P` of the history before it, and the
result satisfies `Q` of the whole history. -/
def Along (P : List (Event Op Ans) → Op → Prop) (Q : List (Event Op Ans) → α → Prop) :
    Prog Op Ans α → List (Event Op Ans) → Prop
  | .ret a, h => Q h a
  | .call o k, h => P h o ∧ ∀ r, Along P Q (k r) (h ++ [⟨o, r⟩])

variable {P P' : List (Event Op Ans) → Op → Prop} {Q Q' : List (Event Op Ans) → α → Prop}

@[simp] theorem along_ret (a : α) (h : List (Event Op Ans)) :
    Along P Q (.ret a) h ↔ Q h a := Iff.rfl

@[simp] theorem along_call (o : Op) (k : Ans o → Prog Op Ans α) (h : List (Event Op Ans)) :
    Along P Q (.call o k) h ↔ P h o ∧ ∀ r, Along P Q (k r) (h ++ [⟨o, r⟩]) := Iff.rfl

theorem Along.mono {p : Prog Op Ans α} {h : List (Event Op Ans)}
    (hP : ∀ h o, P h o → P' h o) (hQ : ∀ h a, Q h a → Q' h a) (ha : Along P Q p h) :
    Along P' Q' p h := by
  induction p generalizing h with
  | ret a => exact hQ _ _ ha
  | call o k ih => exact ⟨hP _ _ ha.1, fun r => ih r (ha.2 r)⟩

/-- A call, then the rest. -/
theorem Along.step {o : Op} {f : Ans o → Prog Op Ans α} {h : List (Event Op Ans)} (ho : P h o)
    (hf : ∀ r, Along P Q (f r) (h ++ [⟨o, r⟩])) : Along P Q (Prog.perform o >>= f) h := ⟨ho, hf⟩

/-- Sequencing: the continuation starts with the history of the first program. -/
theorem along_bind {R : List (Event Op Ans) → β → Prop} {p : Prog Op Ans β}
    {f : β → Prog Op Ans α} {h : List (Event Op Ans)}
    (hp : Along P R p h) (hf : ∀ h b, R h b → Along P Q (f b) h) :
    Along P Q (p >>= f) h := by
  induction p generalizing h with
  | ret b => exact hf _ _ hp
  | call o k ih => exact ⟨hp.1, fun r => ih r (hp.2 r)⟩

/-- A property of histories that the program's calls cannot break is kept by the
program, whose calls need to satisfy `P` only as far as it makes them. -/
theorem Along.of_only {p : Op → Prop} {I : List (Event Op Ans) → Prop} {q : Prog Op Ans α}
    {h : List (Event Op Ans)} (hq : q.Only p) (hI : I h)
    (hext : ∀ h o (r : Ans o), p o → I h → I (h ++ [⟨o, r⟩]))
    (hP : ∀ h o, p o → I h → P h o) : Along P (fun h _ => I h) q h := by
  induction q generalizing h with
  | ret a => exact hI
  | call o k ih => exact ⟨hP h o hq.1 hI, fun r => ih r (hq.2 r) (hext h o r hq.1 hI)⟩

/-- A program that has ended makes no more calls. -/
theorem Path.of_ret {a : α} {h : List (Event Op Ans)} {p : Prog Op Ans α}
    (hp : Path (.ret a) h p) : h = [] ∧ p = .ret a := by
  induction hp with
  | nil => exact ⟨rfl, rfl⟩
  | snoc _ r ih =>
    obtain ⟨-, hcall⟩ := ih
    cases hcall

/-- What holds along a program holds along what is left of it. -/
theorem Along.path {p q : Prog Op Ans α} {h : List (Event Op Ans)}
    (ha : Along P Q p []) (hp : Path p h q) : Along P Q q h := by
  induction hp with
  | nil => exact ha
  | snoc _ r ih => exact ih.2 r

/-- Every call that a program has made satisfies the rule of what was behind it. -/
theorem Along.rule {p q : Prog Op Ans α} {h h₁ h₂ : List (Event Op Ans)} {v : Event Op Ans}
    (ha : Along P Q p []) (hp : Path p h q) (hh : h = h₁ ++ v :: h₂) : P h₁ v.1 := by
  induction hp generalizing h₂ with
  | nil => exact absurd hh (by simp)
  | @snoc h o k hp r ih =>
    obtain rfl | ⟨h₂, w, rfl⟩ := List.eq_nil_or_concat' h₂
    · obtain ⟨rfl, hv⟩ := List.append_inj' hh rfl
      obtain rfl := List.singleton_inj.mp hv
      exact (ha.path hp).1
    · rw [← List.cons_append, ← List.append_assoc] at hh
      exact ih (List.append_inj' hh rfl).1

end E2Mail.Lib
