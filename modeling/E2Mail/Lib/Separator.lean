import Mathlib.Data.List.Basic

/-!
# Lists with a separator

What is joined with a separator and split at it again. The pieces come back if the separator
is in none of them, and there is one at all.
-/

namespace E2Mail.Lib.Separator

variable {α β : Type} [DecidableEq α]

/-- No piece has the separator. -/
theorem not_mem_splitOn {sep : α} : ∀ {s piece : List α}, piece ∈ s.splitOn sep → sep ∉ piece := by
  intro s
  induction s with
  | nil => simp
  | cons c s ih =>
    intro piece hpiece
    rw [List.splitOn_cons_eq_if_modifyHead] at hpiece
    split at hpiece
    · obtain rfl | hpiece := List.mem_cons.mp hpiece
      · exact List.not_mem_nil
      · exact ih hpiece
    · rename_i hc
      cases hpieces : s.splitOn sep with
      | nil => exact absurd hpieces (List.splitOn_ne_nil sep s)
      | cons first rest =>
        rw [hpieces] at hpiece
        obtain rfl | hpiece := List.mem_cons.mp hpiece
        · have hfirst : sep ∉ first := ih (by rw [hpieces]; exact List.mem_cons_self)
          rw [List.mem_cons, not_or]
          exact ⟨fun heq => hc (by simp [heq]), hfirst⟩
        · exact ih (by rw [hpieces]; exact List.mem_cons_of_mem _ hpiece)

/-- A piece is not longer than the list. -/
theorem length_le_of_mem_splitOn {sep : α} : ∀ {s piece : List α}, piece ∈ s.splitOn sep →
    piece.length ≤ s.length := by
  intro s
  induction s with
  | nil => simp
  | cons c s ih =>
    intro piece hpiece
    rw [List.splitOn_cons_eq_if_modifyHead] at hpiece
    rw [List.length_cons]
    split at hpiece
    · obtain rfl | hpiece := List.mem_cons.mp hpiece
      · exact Nat.zero_le _
      · exact Nat.le_succ_of_le (ih hpiece)
    · cases hpieces : s.splitOn sep with
      | nil => exact absurd hpieces (List.splitOn_ne_nil sep s)
      | cons first rest =>
        rw [hpieces] at hpiece
        obtain rfl | hpiece := List.mem_cons.mp hpiece
        · exact Nat.succ_le_succ (ih (by rw [hpieces]; exact List.mem_cons_self))
        · exact Nat.le_succ_of_le (ih (by rw [hpieces]; exact List.mem_cons_of_mem _ hpiece))

/-- Where there is a separator, the pieces are shorter. -/
theorem length_lt_of_mem_splitOn {sep : α} {s piece : List α} (hsep : sep ∈ s)
    (h : piece ∈ s.splitOn sep) : piece.length < s.length := by
  obtain ⟨left, right, rfl⟩ := List.append_of_mem hsep
  rw [List.splitOn_append_cons_self] at h
  rw [List.length_append, List.length_cons]
  rcases List.mem_append.mp h with h | h
  · have hle := length_le_of_mem_splitOn h
    omega
  · have hle := length_le_of_mem_splitOn h
    omega

/-- **The pieces come back** if there is one, and none has the separator. -/
theorem splitOn_intercalate_iff {sep : α} {pieces : List (List α)} :
    ([sep].intercalate pieces).splitOn sep = pieces ↔ pieces ≠ [] ∧ ∀ piece ∈ pieces, sep ∉ piece := by
  constructor
  · intro h
    refine ⟨fun hnil => ?_, fun piece hpiece => not_mem_splitOn (h ▸ hpiece)⟩
    rw [hnil] at h
    exact List.splitOn_ne_nil sep _ h
  · rintro ⟨hne, hfree⟩
    exact List.splitOn_intercalate sep hfree hne

omit [DecidableEq α]

theorem intercalate_eq_nil_iff {sep : α} {pieces : List (List α)} :
    [sep].intercalate pieces = [] ↔ pieces = [] ∨ pieces = [[]] := by
  match pieces with
  | [] => simp
  | [piece] => simp
  | first :: second :: rest => simp [List.intercalate_cons_cons]

omit [DecidableEq α] in
/-- The first separator is where it is. -/
theorem append_cons_inj {sep : α} {x x' y y' : List α} (hx : sep ∉ x) (hx' : sep ∉ x')
    (h : x ++ sep :: y = x' ++ sep :: y') : x = x' ∧ y = y' := by
  induction x generalizing x' with
  | nil =>
    cases x' with
    | nil => exact ⟨rfl, (List.cons.inj h).2⟩
    | cons c x' => exact absurd ((List.cons.inj h).1 ▸ List.mem_cons_self) hx'
  | cons c x ih =>
    cases x' with
    | nil => exact absurd ((List.cons.inj h).1 ▸ List.mem_cons_self) hx
    | cons c' x' =>
      obtain ⟨rfl, hrest⟩ := List.cons.inj h
      obtain ⟨rfl, hy⟩ := ih (fun hin => hx (List.mem_cons_of_mem c hin))
        (fun hin => hx' (List.mem_cons_of_mem c hin)) hrest
      exact ⟨rfl, hy⟩

/-- The text around one piece. -/
theorem intercalate_middle {sep : α} {before after : List (List α)} {piece : List α} :
    [sep].intercalate (before ++ piece :: after) =
      before.flatMap (· ++ [sep]) ++ (piece ++ after.flatMap (sep :: ·)) := by
  induction before with
  | nil =>
    rw [List.nil_append, List.flatMap_nil, List.nil_append]
    induction after generalizing piece with
    | nil => rw [List.intercalate_singleton, List.flatMap_nil, List.append_nil]
    | cons next after ih =>
      rw [List.intercalate_cons_cons, ih, List.flatMap_cons, List.append_assoc, List.singleton_append,
        List.cons_append]
  | cons first before ih =>
    have hne : before ++ piece :: after ≠ [] := List.append_ne_nil_of_right_ne_nil _ (List.cons_ne_nil _ _)
    obtain ⟨second, rest, heq⟩ := List.exists_cons_of_ne_nil hne
    rw [List.cons_append, heq, List.intercalate_cons_cons, ← heq, ih, List.flatMap_cons,
      List.append_assoc (first ++ [sep])]

theorem mem_intercalate {sep c : α} {pieces : List (List α)} (h : c ∈ [sep].intercalate pieces) :
    c = sep ∨ ∃ piece ∈ pieces, c ∈ piece := by
  cases pieces with
  | nil => exact absurd h List.not_mem_nil
  | cons first rest =>
    rw [← List.nil_append (first :: rest), intercalate_middle, List.flatMap_nil, List.nil_append,
      List.mem_append] at h
    rcases h with h | h
    · exact .inr ⟨first, List.mem_cons_self, h⟩
    · obtain ⟨piece, hpiece, hc⟩ := List.mem_flatMap.mp h
      rcases List.mem_cons.mp hc with rfl | hc
      · exact .inl rfl
      · exact .inr ⟨piece, List.mem_cons_of_mem _ hpiece, hc⟩

/-- What is joined first is joined as one piece. -/
theorem intercalate_append {sep : α} {pieces : List (List α)} (h : pieces ≠ [])
    (rest : List (List α)) :
    [sep].intercalate (pieces ++ rest) = [sep].intercalate ([sep].intercalate pieces :: rest) := by
  induction pieces with
  | nil => exact absurd rfl h
  | cons first pieces ih =>
    cases pieces with
    | nil => rw [List.intercalate_singleton, List.singleton_append]
    | cons second pieces =>
      rw [List.cons_append, List.cons_append, List.intercalate_cons_cons, ← List.cons_append,
        ih (List.cons_ne_nil _ _), List.intercalate_cons_cons]
      cases rest with
      | nil => simp
      | cons third rest => simp [List.append_assoc]

/-- **A translation that keeps the separator** translates piece by piece. -/
theorem map_intercalate {f : List α → List β} {sep : α} {sep' : β} (hnil : f [] = [])
    (hsep : ∀ s t, f (s ++ sep :: t) = f s ++ sep' :: f t) (pieces : List (List α)) :
    f ([sep].intercalate pieces) = [sep'].intercalate (pieces.map f) := by
  induction pieces with
  | nil => exact hnil
  | cons first rest ih =>
    cases rest with
    | nil => rw [List.intercalate_singleton, List.map_singleton, List.intercalate_singleton]
    | cons second rest =>
      have hmapped : (first :: second :: rest).map f = f first :: f second :: rest.map f := rfl
      rw [List.intercalate_cons_cons, List.append_assoc, List.singleton_append, hsep, ih, hmapped,
        List.intercalate_cons_cons, List.append_assoc, List.singleton_append]
      rfl

end E2Mail.Lib.Separator
