import Mathlib.Data.List.Basic

/-!
# Computations with a state, failures and a trace

A client that talks over a connection changes its state, may fail at any point, and
leaves a trace of what it did, also when it failed.

* `Effect σ ε τ α` — such computations, a monad, with `fail` and `attempt`.
* `Emits` — a computation that keeps an invariant of its state and leaves only
  events of one kind, however it ends; with a rule for each way to combine them.
-/

namespace E2Mail.Lib

variable {σ ε τ α β : Type}

/-- How a computation ended, the state it left, and the events it left behind. -/
structure Outcome (σ ε τ α : Type) where
  result : Except ε α
  state : σ
  events : List τ

/-- A computation from a state. -/
def Effect (σ ε τ α : Type) : Type := σ → Outcome σ ε τ α

namespace Effect

/-- Nothing but a value. -/
protected def pure (a : α) : Effect σ ε τ α := fun s => ⟨.ok a, s, []⟩

/-- A failure. -/
def fail (e : ε) : Effect σ ε τ α := fun s => ⟨.error e, s, []⟩

/-- One computation and then another, unless the first has failed. -/
protected def bind (m : Effect σ ε τ α) (f : α → Effect σ ε τ β) : Effect σ ε τ β := fun s =>
  match (m s).result with
  | .error e => ⟨.error e, (m s).state, (m s).events⟩
  | .ok a =>
    ⟨(f a (m s).state).result, (f a (m s).state).state, (m s).events ++ (f a (m s).state).events⟩

instance : Monad (Effect σ ε τ) where
  pure := Effect.pure
  bind := Effect.bind

/-- A computation with its failure as a value. -/
def attempt (m : Effect σ ε τ α) : Effect σ ε τ (Except ε α) := fun s =>
  ⟨.ok (m s).result, (m s).state, (m s).events⟩

/-- A computation with another failure in place of its own. -/
def mapError (f : ε → ε) (m : Effect σ ε τ α) : Effect σ ε τ α := fun s =>
  ⟨(m s).result.mapError f, (m s).state, (m s).events⟩

/-- The state. -/
def get : Effect σ ε τ σ := fun s => ⟨.ok s, s, []⟩

/-- A change of the state. -/
def modify (f : σ → σ) : Effect σ ε τ Unit := fun s => ⟨.ok (), f s, []⟩

/-! ## One computation after another -/

variable {m : Effect σ ε τ α} {f : α → Effect σ ε τ β} {s : σ}

theorem bind_error {e : ε} (h : (m s).result = .error e) :
    (m >>= f) s = ⟨.error e, (m s).state, (m s).events⟩ := by
  change Effect.bind m f s = _
  rw [Effect.bind, h]

theorem bind_ok {a : α} (h : (m s).result = .ok a) :
    (m >>= f) s = ⟨(f a (m s).state).result, (f a (m s).state).state,
      (m s).events ++ (f a (m s).state).events⟩ := by
  change Effect.bind m f s = _
  rw [Effect.bind, h]

/-- A sequence that went through went through in both parts. -/
theorem bind_eq_ok {b : β} (h : ((m >>= f) s).result = .ok b) :
    ∃ a, (m s).result = .ok a ∧ (f a (m s).state).result = .ok b ∧
      ((m >>= f) s).events = (m s).events ++ (f a (m s).state).events := by
  cases hm : (m s).result with
  | error e =>
    rw [bind_error hm] at h
    cases h
  | ok a =>
    rw [bind_ok hm] at h ⊢
    exact ⟨a, rfl, h, rfl⟩

/-- Sequences of three, from the left and from the right. -/
theorem bind_assoc {γ : Type} {g : β → Effect σ ε τ γ} :
    ((m >>= f) >>= g) s = (m >>= fun a => f a >>= g) s := by
  cases hm : (m s).result with
  | error e =>
    have hmf : ((m >>= f) s).result = .error e := by rw [bind_error hm]
    rw [bind_error hmf, bind_error hm, bind_error hm]
  | ok a =>
    rw [bind_ok hm]
    cases hf : (f a (m s).state).result with
    | error e =>
      have hmf : ((m >>= f) s).result = .error e := by rw [bind_ok hm, hf]
      rw [bind_error hmf, bind_error hf, bind_ok hm]
    | ok b =>
      have hmf : ((m >>= f) s).result = .ok b := by rw [bind_ok hm, hf]
      rw [bind_ok hmf, bind_ok hf, bind_ok hm, List.append_assoc]

theorem get_bind {f : σ → Effect σ ε τ β} : (Effect.get >>= f) s = f s s := rfl

theorem modify_bind {g : σ → σ} {f : Unit → Effect σ ε τ β} :
    (Effect.modify g >>= f) s = f () (g s) := rfl

/-! ## What a computation emits -/

/-- The computation keeps the invariant, and all its events are of the kind. -/
def Emits (I : σ → Prop) (p : τ → Prop) (m : Effect σ ε τ α) : Prop :=
  ∀ s, I s → I (m s).state ∧ ∀ e ∈ (m s).events, p e

variable {I : σ → Prop} {p q : τ → Prop}

theorem Emits.pure (a : α) : Emits I p (pure a : Effect σ ε τ α) :=
  fun _ hs => ⟨hs, fun _ he => absurd he List.not_mem_nil⟩

theorem Emits.fail (e : ε) : Emits I p (Effect.fail e : Effect σ ε τ α) :=
  fun _ hs => ⟨hs, fun _ he => absurd he List.not_mem_nil⟩

theorem Emits.get : Emits I p (Effect.get : Effect σ ε τ σ) :=
  fun _ hs => ⟨hs, fun _ he => absurd he List.not_mem_nil⟩

theorem Emits.modify {f : σ → σ} (hf : ∀ s, I s → I (f s)) :
    Emits I p (Effect.modify f : Effect σ ε τ Unit) :=
  fun s hs => ⟨hf s hs, fun _ he => absurd he List.not_mem_nil⟩

theorem Emits.bind (hm : Emits I p m) (hf : ∀ a, Emits I p (f a)) : Emits I p (m >>= f) := by
  intro s hs
  obtain ⟨hstate, hevents⟩ := hm s hs
  cases h : (m s).result with
  | error e =>
    rw [bind_error h]
    exact ⟨hstate, hevents⟩
  | ok a =>
    rw [bind_ok h]
    obtain ⟨hstate', hevents'⟩ := hf a _ hstate
    exact ⟨hstate', fun e he => (List.mem_append.mp he).elim (hevents e) (hevents' e)⟩

theorem Emits.attempt (hm : Emits I p m) : Emits I p m.attempt := hm

theorem Emits.mapError {g : ε → ε} (hm : Emits I p m) : Emits I p (m.mapError g) := hm

theorem Emits.mono (hm : Emits I p m) (hpq : ∀ e, p e → q e) : Emits I q m :=
  fun s hs => ⟨(hm s hs).1, fun e he => hpq e ((hm s hs).2 e he)⟩

/-- A computation that is chosen by a test. -/
theorem Emits.ite {c : Prop} [Decidable c] {m' : Effect σ ε τ α} (hm : Emits I p m)
    (hm' : Emits I p m') : Emits I p (if c then m else m') := by
  split
  · exact hm
  · exact hm'

end Effect

end E2Mail.Lib
