import Mathlib.Data.List.Basic

/-!
# A queue with a bound

What is offered to a full queue is lost without a word.

* `offer`, `take` — the two ends.
* `Ends` — what has been taken and what waits, and `Ends.after` the two after a run of uses.
* `sublist_puts` — nothing comes out that was not put in, in order and once.
* `eq_puts_iff` — everything comes out if and only if the queue was never full when something came.
-/

namespace E2Mail.Lib.BoundedQueue

variable {α : Type*} {cap : Nat}

/-- A new one at the back, if there is room. -/
def offer (cap : Nat) (queue : List α) (a : α) : List α :=
  if queue.length < cap then queue ++ [a] else queue

/-- Both ends of the queue: what has been taken, and what waits. -/
structure Ends (α : Type*) where
  taken : List α
  waiting : List α

/-- A use of the queue. -/
inductive Use (α : Type*) where
  | put (a : α)
  | take

/-- The queue after a use. -/
def Ends.use (cap : Nat) (q : Ends α) : Use α → Ends α
  | .put a => ⟨q.taken, offer cap q.waiting a⟩
  | .take => ⟨q.taken ++ q.waiting.head?.toList, q.waiting.tail⟩

/-- The queue after a run of uses. -/
def Ends.after (cap : Nat) (q : Ends α) (uses : List (Use α)) : Ends α := uses.foldl (Ends.use cap) q

theorem after_append (q : Ends α) (uses uses' : List (Use α)) :
    q.after cap (uses ++ uses') = (q.after cap uses).after cap uses' := List.foldl_append

/-- What was offered. -/
def puts (uses : List (Use α)) : List α :=
  uses.filterMap fun u => match u with | .put a => some a | .take => none

@[simp] theorem puts_nil : puts ([] : List (Use α)) = [] := rfl

@[simp] theorem puts_put (a : α) (uses : List (Use α)) : puts (.put a :: uses) = a :: puts uses := rfl

@[simp] theorem puts_take (uses : List (Use α)) : puts (.take :: uses) = puts uses := rfl

theorem puts_append (uses uses' : List (Use α)) : puts (uses ++ uses') = puts uses ++ puts uses' :=
  List.filterMap_append

/-- All that has come into the queue. -/
def Ends.all (q : Ends α) : List α := q.taken ++ q.waiting

/-- A taking changes nothing of what has come in. -/
theorem all_take (q : Ends α) : (q.use cap .take).all = q.all := by
  rw [Ends.use, Ends.all, Ends.all]
  cases q.waiting <;> simp

theorem all_put (q : Ends α) (a : α) :
    (q.use cap (.put a)).all = if q.waiting.length < cap then q.all ++ [a] else q.all := by
  rw [Ends.use, offer, Ends.all]
  split <;> simp [Ends.all]

/-- What comes in is what was offered, with some of it left out. -/
theorem sublist_puts (cap : Nat) (q : Ends α) (uses : List (Use α)) :
    (q.after cap uses).all.Sublist (q.all ++ puts uses) := by
  induction uses generalizing q with
  | nil => simp [Ends.after]
  | cons u uses ih =>
    have hnext := ih (q.use cap u)
    cases u with
    | take =>
      rw [all_take] at hnext
      exact hnext
    | put a =>
      rw [all_put] at hnext
      refine hnext.trans ?_
      split
      · simp
      · simp

/-- What waits was there or has been offered. -/
theorem mem_waiting_after {q : Ends α} {uses : List (Use α)} {a : α} (h : a ∈ (q.after cap uses).waiting) :
    a ∈ q.waiting ∨ a ∈ puts uses := by
  induction uses generalizing q with
  | nil => exact .inl h
  | cons u uses ih =>
    rcases ih (q := q.use cap u) h with hin | hin
    · cases u with
      | take => exact .inl (List.mem_of_mem_tail hin)
      | put b =>
        rw [Ends.use, offer] at hin
        split at hin
        · rcases List.mem_append.mp hin with hin | hin
          · exact .inl hin
          · exact .inr (List.mem_cons.mpr (.inl (List.mem_singleton.mp hin)))
        · exact .inl hin
    · refine .inr ?_
      cases u with
      | take => exact hin
      | put b => exact List.mem_cons_of_mem b hin

/-- The queue has room whenever something is offered. -/
def HasRoom (cap : Nat) (q : Ends α) (uses : List (Use α)) : Prop :=
  ∀ before a rest, uses = before ++ .put a :: rest → (q.after cap before).waiting.length < cap

theorem HasRoom.tail {q : Ends α} {u : Use α} {uses : List (Use α)} (h : HasRoom cap q (u :: uses)) :
    HasRoom cap (q.use cap u) uses := fun before a rest hsplit =>
  h (u :: before) a rest (by rw [hsplit, List.cons_append])

theorem hasRoom_nil (q : Ends α) : HasRoom cap q [] := by
  simp [HasRoom]

theorem hasRoom_take {q : Ends α} {uses : List (Use α)} :
    HasRoom cap q (.take :: uses) ↔ HasRoom cap (q.use cap .take) uses := by
  refine ⟨HasRoom.tail, fun h before a rest hsplit => ?_⟩
  cases before with
  | nil => cases hsplit
  | cons u before =>
    obtain ⟨rfl, hrest⟩ := List.cons.inj hsplit
    exact h before a rest hrest

theorem hasRoom_put {q : Ends α} {a : α} {uses : List (Use α)} :
    HasRoom cap q (.put a :: uses) ↔ q.waiting.length < cap ∧ HasRoom cap (q.use cap (.put a)) uses := by
  refine ⟨fun h => ⟨h [] a uses rfl, h.tail⟩, fun ⟨hroom, h⟩ before b rest hsplit => ?_⟩
  cases before with
  | nil => exact hroom
  | cons u before =>
    obtain ⟨rfl, hrest⟩ := List.cons.inj hsplit
    exact h before b rest hrest

theorem hasRoom_append {q : Ends α} {uses uses' : List (Use α)} :
    HasRoom cap q (uses ++ uses') ↔ HasRoom cap q uses ∧ HasRoom cap (q.after cap uses) uses' := by
  induction uses generalizing q with
  | nil => exact (and_iff_right (hasRoom_nil q)).symm
  | cons u uses ih =>
    rw [List.cons_append]
    cases u with
    | take => rw [hasRoom_take, hasRoom_take, ih, Ends.after, Ends.after, List.foldl_cons]
    | put a => rw [hasRoom_put, hasRoom_put, ih, and_assoc, Ends.after, Ends.after, List.foldl_cons]

/-- **Nothing is lost** if and only if the queue has room whenever something is offered. -/
theorem eq_puts_iff (q : Ends α) (uses : List (Use α)) :
    (q.after cap uses).all = q.all ++ puts uses ↔ HasRoom cap q uses := by
  induction uses generalizing q with
  | nil => simp [Ends.after, HasRoom]
  | cons u uses ih =>
    have hnext := ih (q.use cap u)
    have hafter : q.after cap (u :: uses) = (q.use cap u).after cap uses := rfl
    rw [hafter]
    cases u with
    | take =>
      rw [all_take] at hnext
      rw [puts_take, hnext, hasRoom_take]
    | put a =>
      rw [hasRoom_put]
      by_cases hroom : q.waiting.length < cap
      · rw [all_put, if_pos hroom] at hnext
        rw [puts_put, List.append_cons, hnext, and_iff_right hroom]
      · refine ⟨fun h => ?_, fun h => absurd h.1 hroom⟩
        -- what was refused is missing at the end
        have hle := (sublist_puts cap (q.use cap (.put a)) uses).length_le
        rw [all_put, if_neg hroom, h] at hle
        simp only [puts_put, List.length_append, List.length_cons] at hle
        omega

end E2Mail.Lib.BoundedQueue
