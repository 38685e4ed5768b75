import E2Mail.Lib.Table

/-!
# Maps

A map of a program, with as many entries as it has keys: what is put under a key, what a
sweep takes out, and how many entries there are.
-/

namespace E2Mail.Lib

/-- Entries, no two of which have the same key. -/
abbrev KeyMap (κ β : Type) : Type := Table (ρ := κ × β) Prod.fst

namespace KeyMap

variable {κ β : Type} [DecidableEq κ]

/-- What is under a key. -/
def get (m : KeyMap κ β) (k : κ) : Option β := (m.rows.find? fun r => r.1 = k).map Prod.snd

theorem nodup_put (m : KeyMap κ β) (k : κ) (b : β) :
    (((m.delete fun r => r.1 = k).rows ++ [(k, b)]).map Prod.fst).Nodup := by
  rw [List.map_append, List.map_singleton, ← List.concat_eq_append]
  refine (m.delete fun r => r.1 = k).nodup.concat fun hk => ?_
  obtain ⟨r, hr, rfl⟩ := List.mem_map.mp hk
  simpa using (Table.mem_delete.mp hr).2

/-- The map with another value under a key. -/
def put (m : KeyMap κ β) (k : κ) (b : β) : KeyMap κ β :=
  ⟨(m.delete fun r => r.1 = k).rows ++ [(k, b)], m.nodup_put k b⟩

/-- The map without a key. -/
def erase (m : KeyMap κ β) (k : κ) : KeyMap κ β := m.delete fun r => r.1 = k

/-- The map without the values of which the predicate holds. -/
def sweep (m : KeyMap κ β) (p : β → Bool) : KeyMap κ β := m.delete fun r => p r.2

/-- How many entries there are. -/
def size (m : KeyMap κ β) : Nat := m.rows.length

variable {m : KeyMap κ β} {k k' : κ} {b : β} {p : β → Bool}

theorem get_eq_some_iff : m.get k = some b ↔ (k, b) ∈ m.rows := by
  rw [get, Option.map_eq_some_iff]
  constructor
  · rintro ⟨⟨k', b'⟩, hfind, rfl⟩
    have hk := List.find?_some hfind
    rw [decide_eq_true_eq] at hk
    exact hk ▸ List.mem_of_find?_eq_some hfind
  · intro hmem
    cases hfind : m.rows.find? fun r => r.1 = k with
    | none =>
      have hno := List.find?_eq_none.mp hfind (k, b) hmem
      simp at hno
    | some r =>
      have hk := List.find?_some hfind
      rw [decide_eq_true_eq] at hk
      rw [Table.eq_of_key (List.mem_of_find?_eq_some hfind) hmem hk]
      exact ⟨_, rfl, rfl⟩

theorem mem_put {r : κ × β} : r ∈ (m.put k b).rows ↔ r = (k, b) ∨ r ∈ m.rows ∧ r.1 ≠ k := by
  rw [put, List.mem_append, List.mem_singleton, Table.mem_delete, decide_eq_false_iff_not, or_comm]

@[simp] theorem get_put : (m.put k b).get k = some b :=
  get_eq_some_iff.mpr (mem_put.mpr (.inl rfl))

theorem get_put_ne (h : k' ≠ k) : (m.put k b).get k' = m.get k' := by
  refine Option.ext fun b' => ?_
  rw [get_eq_some_iff, get_eq_some_iff, mem_put]
  constructor
  · rintro (heq | hmem)
    · exact absurd (Prod.ext_iff.mp heq).1 h
    · exact hmem.1
  · exact fun hmem => .inr ⟨hmem, h⟩

theorem get_erase : (m.erase k).get k = none := by
  refine Option.eq_none_iff_forall_not_mem.mpr fun b hb => ?_
  rw [Option.mem_def, get_eq_some_iff, erase, Table.mem_delete] at hb
  exact of_decide_eq_false hb.2 rfl

theorem get_erase_ne (h : k' ≠ k) : (m.erase k).get k' = m.get k' := by
  refine Option.ext fun b => ?_
  rw [get_eq_some_iff, get_eq_some_iff, erase, Table.mem_delete]
  exact ⟨fun hmem => hmem.1, fun hmem => ⟨hmem, decide_eq_false h⟩⟩

theorem get_sweep : (m.sweep p).get k = (m.get k).filter fun b => !p b := by
  refine Option.ext fun b => ?_
  rw [get_eq_some_iff, sweep, Table.mem_delete, Option.filter_eq_some_iff, get_eq_some_iff, Bool.not_eq_true']

omit [DecidableEq κ] in
theorem size_sweep_le : (m.sweep p).size ≤ m.size := List.length_filter_le _ _

end KeyMap

end E2Mail.Lib
