import Mathlib.Data.List.Perm.Basic

/-!
# Letting in up to a limit

Comers are let in one after the other. Who is in already does not come in again. The gate goes
by a counter, which may count more than those it has let in.

* `step` — a comer at the gate, `enter` — one that is not held up.
* `Fair` — who is new is let in exactly when there is room.
* `Apt` — the counter tells the room right, as long as nobody is turned away.
* `fair_iff` — they are the same.
-/

namespace E2Mail.Lib.Admission

/-- A comer. One that is in already may be counted all the same. -/
structure Comer (κ : Type) where
  key : κ
  counts : Bool

/-- Who is in, and the counter. -/
structure Gate (κ : Type) where
  inside : List κ
  counter : Nat

variable {κ : Type} [DecidableEq κ]

/-- A comer, where the gate closes once the counter is at the limit. -/
def step (limit : Nat) (g : Gate κ) (c : Comer κ) : Gate κ :=
  if c.key ∈ g.inside then { g with counter := g.counter + c.counts.toNat }
  else if g.counter < limit then ⟨c.key :: g.inside, g.counter + 1⟩
  else g

/-- A comer, where the gate is open. -/
def enter (g : Gate κ) (c : Comer κ) : Gate κ :=
  if c.key ∈ g.inside then { g with counter := g.counter + c.counts.toNat }
  else ⟨c.key :: g.inside, g.counter + 1⟩

/-- Whoever is new is let in exactly when there is room. -/
def Fair (room limit : Nat) : List (Comer κ) → Gate κ → Prop
  | [], _ => True
  | c :: rest, g =>
    (c.key ∉ g.inside → (g.counter < limit ↔ g.inside.length < room)) ∧
      Fair room limit rest (step limit g c)

/-- For whoever is new the counter tells the room right, with all those before let in. -/
def Apt (room limit : Nat) (comers : List (Comer κ)) (g : Gate κ) : Prop :=
  ∀ before c after, comers = before ++ c :: after → c.key ∉ (before.foldl enter g).inside →
    ((before.foldl enter g).counter < limit ↔ (before.foldl enter g).inside.length < room)

variable {room limit : Nat} {g : Gate κ} {c : Comer κ}

theorem step_of_mem (h : c.key ∈ g.inside) : step limit g c = enter g c := by
  rw [step, enter, if_pos h, if_pos h]

theorem step_of_lt (h : g.counter < limit) : step limit g c = enter g c := by
  rw [step, enter, if_pos h]

theorem step_of_full (h : c.key ∉ g.inside) (hfull : ¬ g.counter < limit) : step limit g c = g := by
  rw [step, if_neg h, if_neg hfull]

theorem counter_le_enter (g : Gate κ) (c : Comer κ) : g.counter ≤ (enter g c).counter := by
  rw [enter]
  split <;> simp

theorem length_le_enter (g : Gate κ) (c : Comer κ) : g.inside.length ≤ (enter g c).inside.length := by
  rw [enter]
  split <;> simp

theorem le_foldl_enter (comers : List (Comer κ)) (g : Gate κ) :
    g.counter ≤ (comers.foldl enter g).counter ∧
      g.inside.length ≤ (comers.foldl enter g).inside.length := by
  induction comers generalizing g with
  | nil => exact ⟨Nat.le_refl _, Nat.le_refl _⟩
  | cons c comers ih =>
    obtain ⟨hcounter, hlength⟩ := ih (enter g c)
    exact ⟨Nat.le_trans (counter_le_enter g c) hcounter, Nat.le_trans (length_le_enter g c) hlength⟩

/-- With no room and the gate closed, it stays so. -/
theorem fair_of_full {comers : List (Comer κ)} (hroom : ¬ g.inside.length < room)
    (hfull : ¬ g.counter < limit) : Fair room limit comers g := by
  induction comers generalizing g with
  | nil => trivial
  | cons c comers ih =>
    refine ⟨fun _ => iff_of_false hfull hroom, ?_⟩
    by_cases hmem : c.key ∈ g.inside
    · rw [step_of_mem hmem]
      refine ih (fun h => hroom ?_) fun h => hfull ?_
      · exact Nat.lt_of_le_of_lt (length_le_enter g c) h
      · exact Nat.lt_of_le_of_lt (counter_le_enter g c) h
    · rw [step_of_full hmem hfull]
      exact ih hroom hfull

theorem apt_of_full {comers : List (Comer κ)} (hroom : ¬ g.inside.length < room)
    (hfull : ¬ g.counter < limit) : Apt room limit comers g := by
  rintro before c after - -
  obtain ⟨hcounter, hlength⟩ := le_foldl_enter before g
  refine iff_of_false (fun h => hfull ?_) fun h => hroom ?_
  · exact Nat.lt_of_le_of_lt hcounter h
  · exact Nat.lt_of_le_of_lt hlength h

theorem apt_cons {comers : List (Comer κ)} : Apt room limit (c :: comers) g ↔
    (c.key ∉ g.inside → (g.counter < limit ↔ g.inside.length < room)) ∧
      Apt room limit comers (enter g c) := by
  constructor
  · intro h
    refine ⟨fun hnew => h [] c comers rfl hnew, fun before d after heq => ?_⟩
    exact h (c :: before) d after (congrArg (c :: ·) heq)
  · rintro ⟨hfirst, hrest⟩ before d after heq
    cases before with
    | nil =>
      obtain ⟨rfl, rfl⟩ := List.cons.inj heq
      exact hfirst
    | cons b before =>
      obtain ⟨rfl, rfl⟩ := List.cons.inj heq
      exact hrest before d after rfl

/-- **The gate is fair** if and only if its counter is apt. -/
theorem fair_iff {comers : List (Comer κ)} : Fair room limit comers g ↔ Apt room limit comers g := by
  induction comers generalizing g with
  | nil => exact iff_of_true trivial fun before c after heq => by simp at heq
  | cons c comers ih =>
    rw [Fair, apt_cons]
    refine and_congr_right fun hfirst => ?_
    by_cases hmem : c.key ∈ g.inside
    · rw [step_of_mem hmem, ih]
    by_cases hlt : g.counter < limit
    · rw [step_of_lt hlt, ih]
    · -- the gate closes for good
      have hroom : ¬ g.inside.length < room := fun h => hlt ((hfirst hmem).mpr h)
      rw [step_of_full hmem hlt]
      refine iff_of_true (fair_of_full hroom hlt) (apt_of_full (fun h => hroom ?_) fun h => hlt ?_)
      · exact Nat.lt_of_le_of_lt (length_le_enter g c) h
      · exact Nat.lt_of_le_of_lt (counter_le_enter g c) h

/-- Fairness, comer by comer. -/
theorem fair_iff_forall {comers : List (Comer κ)} : Fair room limit comers g ↔
    ∀ before c after, comers = before ++ c :: after →
      c.key ∉ (before.foldl (step limit) g).inside →
        ((before.foldl (step limit) g).counter < limit ↔
          (before.foldl (step limit) g).inside.length < room) := by
  induction comers generalizing g with
  | nil => exact iff_of_true trivial fun before c after heq => by simp at heq
  | cons c comers ih =>
    rw [Fair, ih]
    constructor
    · rintro ⟨hfirst, hrest⟩ before d after heq
      cases before with
      | nil =>
        obtain ⟨rfl, rfl⟩ := List.cons.inj heq
        exact hfirst
      | cons b before =>
        obtain ⟨rfl, rfl⟩ := List.cons.inj heq
        exact hrest before d after rfl
    · intro h
      exact ⟨h [] c comers rfl, fun before d after heq => h (c :: before) d after (congrArg (c :: ·) heq)⟩

/-- One that is in and counts, again and again. -/
theorem foldl_step_replicate {k : κ} (h : k ∈ g.inside) (n : Nat) :
    (List.replicate n ⟨k, true⟩).foldl (step limit) g = { g with counter := g.counter + n } := by
  induction n generalizing g with
  | zero => rfl
  | succ n ih =>
    have hrest := @ih ⟨g.inside, g.counter + 1⟩ h
    rw [List.replicate_succ, List.foldl_cons, step, if_pos h]
    refine hrest.trans ?_
    rw [Nat.add_assoc, Nat.add_comm 1 n]

/-- Whoever is new gets in while the counter is below the limit. -/
theorem mem_step_iff (h : c.key ∉ g.inside) :
    c.key ∈ (step limit g c).inside ↔ g.counter < limit := by
  rw [step, if_neg h]
  split
  · exact iff_of_true List.mem_cons_self ‹_›
  · exact iff_of_false h ‹_›

/-- A fair gate keeps to the room. -/
theorem length_le_of_fair {comers : List (Comer κ)} (h : Fair room limit comers g) :
    (comers.foldl (step limit) g).inside.length ≤ max room g.inside.length := by
  induction comers generalizing g with
  | nil => exact Nat.le_max_right _ _
  | cons c comers ih =>
    obtain ⟨hfirst, hrest⟩ := h
    refine Nat.le_trans (ih hrest) (Nat.max_le.mpr ⟨Nat.le_max_left _ _, ?_⟩)
    rw [step]
    split
    · exact Nat.le_max_right _ _
    split
    · rename_i hnew hlt
      have hroom := (hfirst hnew).mp hlt
      rw [List.length_cons]
      exact Nat.le_trans hroom (Nat.le_max_left _ _)
    · exact Nat.le_max_right _ _

end E2Mail.Lib.Admission
