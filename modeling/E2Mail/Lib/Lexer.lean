import Mathlib.Data.List.Basic

/-!
# Lexers that work step by step

A step takes something from the front of a text and makes tokens of it, or fails. `lex`
takes steps until the text is used up. What a piece of text becomes is told by rules
that put pieces together, so that a text never has to be taken apart again:

* `Reads` — a piece becomes the tokens when this text comes after it;
* `Seals` — it does so whatever comes after;
* `Lexes` — it does so when what comes after does not go on with the last word.
-/

namespace E2Mail.Lib

variable {α τ : Type}

/-- One step of a lexer: the tokens made, and what is left of the text. -/
abbrev LexStep (α τ : Type) := List α → Option (List τ × List α)

namespace LexStep

/-- A step takes something. -/
def Shrinks (step : LexStep α τ) : Prop :=
  ∀ s ts rest, step s = some (ts, rest) → rest.length < s.length

/-- Takes steps, so many at most, until the text is used up. -/
def scan (step : LexStep α τ) : Nat → List α → Option (List τ)
  | _, [] => some []
  | 0, _ :: _ => none
  | fuel + 1, c :: s =>
    match step (c :: s) with
    | none => none
    | some (ts, rest) => (scan step fuel rest).map (ts ++ ·)

/-- Takes steps until the text is used up; there are no more steps than characters. -/
def lex (step : LexStep α τ) (s : List α) : Option (List τ) := scan step s.length s

variable {step : LexStep α τ}

@[simp] theorem lex_nil : lex step [] = some [] := rfl

/-- The number of steps allowed does not matter if it is large enough. -/
theorem scan_enough (hstep : Shrinks step) (fuel : Nat) :
    ∀ (fuel' : Nat) (s : List α), s.length ≤ fuel → s.length ≤ fuel' →
      scan step fuel s = scan step fuel' s := by
  induction fuel with
  | zero =>
    intro fuel' s hs _
    obtain rfl : s = [] := List.length_eq_zero_iff.mp (Nat.le_zero.mp hs)
    simp only [scan]
  | succ fuel ih =>
    intro fuel' s hs hs'
    cases s with
    | nil => simp only [scan]
    | cons c s =>
      obtain ⟨n, rfl⟩ : ∃ n, fuel' = n + 1 := Nat.exists_eq_add_one.mpr (by simp at hs'; omega)
      simp only [scan]
      cases hc : step (c :: s) with
      | none => rfl
      | some made =>
        obtain ⟨ts, rest⟩ := made
        have hlt := hstep _ _ _ hc
        simp only [List.length_cons] at hlt hs hs'
        simp only [ih n rest (by omega) (by omega)]

/-- `lex` goes on after a step. -/
theorem lex_step (hstep : Shrinks step) {s rest : List α} {ts : List τ}
    (hs : step s = some (ts, rest)) : lex step s = (lex step rest).map (ts ++ ·) := by
  have hlt := hstep _ _ _ hs
  cases s with
  | nil => simp at hlt
  | cons c s =>
    simp only [lex, List.length_cons, scan, hs]
    simp only [List.length_cons] at hlt
    rw [scan_enough hstep s.length rest.length rest (by omega) (Nat.le_refl _)]

/-! ## Pieces of text -/

/-- With `rest` after it, the piece becomes the tokens. -/
def Reads (step : LexStep α τ) (piece : List α) (ts : List τ) (rest : List α) : Prop :=
  lex step (piece ++ rest) = (lex step rest).map (ts ++ ·)

/-- Whatever comes after it, the piece becomes the tokens. -/
def Seals (step : LexStep α τ) (piece : List α) (ts : List τ) : Prop :=
  ∀ rest, Reads step piece ts rest

/-- The text does not begin with a character of a word. -/
def Stops (word : α → Bool) (s : List α) : Prop := ∀ c ∈ s.head?, word c = false

/-- The piece becomes the tokens if no word goes on after it. -/
def Lexes (step : LexStep α τ) (word : α → Bool) (piece : List α) (ts : List τ) : Prop :=
  ∀ rest, Stops word rest → Reads step piece ts rest

variable {word : α → Bool} {piece more rest : List α} {ts us : List τ}

theorem Stops.append (h : Stops word more) (hrest : Stops word rest) :
    Stops word (more ++ rest) := by
  cases more with
  | nil => exact hrest
  | cons c more => exact h

@[simp] theorem stops_nil : Stops word ([] : List α) := by simp [Stops]

@[simp] theorem stops_cons {c : α} {s : List α} : Stops word (c :: s) ↔ word c = false := by
  simp [Stops]

/-- A piece that takes one step. -/
theorem Reads.of_step (hstep : Shrinks step) (hs : step (piece ++ rest) = some (ts, rest)) :
    Reads step piece ts rest := lex_step hstep hs

theorem Reads.nil : Reads step [] [] rest := by
  simp [Reads]

theorem Reads.append (hp : Reads step piece ts (more ++ rest)) (hm : Reads step more us rest) :
    Reads step (piece ++ more) (ts ++ us) rest := by
  rw [Reads, List.append_assoc, hp, hm, Option.map_map]
  congr 1
  funext vs
  exact (List.append_assoc ts us vs).symm

theorem Lexes.nil : Lexes step word [] [] := fun _ _ => Reads.nil

theorem Seals.nil : Seals step [] [] := fun _ => Reads.nil

theorem Seals.append (hp : Seals step piece ts) (hm : Seals step more us) :
    Seals step (piece ++ more) (ts ++ us) :=
  fun rest => (hp (more ++ rest)).append (hm rest)

theorem Seals.append_lexes (hp : Seals step piece ts) (hm : Lexes step word more us) :
    Lexes step word (piece ++ more) (ts ++ us) :=
  fun rest hrest => (hp (more ++ rest)).append (hm rest hrest)

/-- A word comes to its end where the next piece begins. -/
theorem Lexes.append (hp : Lexes step word piece ts) (hm : Lexes step word more us)
    (hstop : Stops word more) : Lexes step word (piece ++ more) (ts ++ us) :=
  fun rest hrest => (hp (more ++ rest) (hstop.append hrest)).append (hm rest hrest)

/-- **The whole text**: what it becomes is known piece by piece. -/
theorem Lexes.lex_eq (h : Lexes step word piece ts) : lex step piece = some ts := by
  have hall := h [] stops_nil
  rw [Reads, List.append_nil, lex_nil] at hall
  simpa using hall

end LexStep

end E2Mail.Lib
