import Mathlib.Data.List.Basic
import Mathlib.Data.List.Nodup

/-!
# Tables with a primary key

A table is a list of rows no two of which share a key, so a row that would
break the primary key cannot be inserted. The statements of SQL that the
programs here issue are operations on tables: an insert that may be refused, an
update and a delete with a condition. Rows keep their order.

What is said of tables is said by counting rows: an invariant such as "exactly
one row of this owner is marked" is an equation about `count`, and each
operation has a rule for it.
-/

namespace E2Mail.Lib

/-- Rows without two of the same key. -/
structure Table {ρ κ : Type} (key : ρ → κ) where
  /-- the rows, in the order of insertion -/
  rows : List ρ
  /-- the primary key -/
  nodup : (rows.map key).Nodup

namespace Table

variable {ρ κ : Type} {key : ρ → κ}

/-- The empty table. -/
def empty : Table key := ⟨[], List.nodup_nil⟩

/-- `INSERT`: refused when a row has the key already. -/
def insert? [DecidableEq κ] (r : ρ) (t : Table key) : Option (Table key) :=
  if h : key r ∈ t.rows.map key then none
  else some ⟨t.rows ++ [r], by
    rw [List.map_append, List.map_singleton, ← List.concat_eq_append]
    exact t.nodup.concat h⟩

/-- `UPDATE … WHERE p`: the key is not among the columns set. -/
def update (p : ρ → Bool) (f : ρ → ρ) (hf : ∀ r, key (f r) = key r) (t : Table key) :
    Table key :=
  ⟨t.rows.map fun r => if p r then f r else r, by
    have hkeys : (t.rows.map fun r => if p r then f r else r).map key = t.rows.map key := by
      rw [List.map_map]
      refine List.map_congr_left fun r _ => ?_
      simp only [Function.comp_apply]
      split
      · exact hf r
      · rfl
    rw [hkeys]
    exact t.nodup⟩

/-- `DELETE … WHERE p`. -/
def delete (p : ρ → Bool) (t : Table key) : Table key :=
  ⟨t.rows.filter fun r => !p r, t.nodup.sublist (List.filter_sublist.map key)⟩

/-- `SELECT COUNT(*) … WHERE p`. -/
def count (p : ρ → Bool) (t : Table key) : Nat := t.rows.countP p

theorem rows_update (p : ρ → Bool) (f : ρ → ρ) (hf : ∀ r, key (f r) = key r) (t : Table key) :
    (t.update p f hf).rows = t.rows.map fun r => if p r then f r else r := rfl

/-! ## Membership -/

theorem eq_of_key {t : Table key} {r s : ρ} (hr : r ∈ t.rows) (hs : s ∈ t.rows)
    (h : key r = key s) : r = s :=
  List.inj_on_of_nodup_map t.nodup hr hs h

theorem insert?_eq_some [DecidableEq κ] {t t' : Table key} {r : ρ} :
    t.insert? r = some t' ↔ key r ∉ t.rows.map key ∧ t'.rows = t.rows ++ [r] := by
  unfold insert?
  split
  · simp [*]
  · rename_i h
    refine ⟨?_, ?_⟩
    · rintro ⟨⟩
      exact ⟨h, rfl⟩
    · rintro ⟨-, h'⟩
      obtain ⟨rows, hnd⟩ := t'
      simp only at h'
      simp [h']

theorem insert?_eq_none [DecidableEq κ] {t : Table key} {r : ρ} :
    t.insert? r = none ↔ key r ∈ t.rows.map key := by
  rw [insert?]
  by_cases h : key r ∈ t.rows.map key <;> simp [h]

theorem mem_delete {t : Table key} {p : ρ → Bool} {r : ρ} :
    r ∈ (t.delete p).rows ↔ r ∈ t.rows ∧ p r = false := by
  simp [delete]

/-! ## Counting -/

theorem count_insert? [DecidableEq κ] {t t' : Table key} {r : ρ} (h : t.insert? r = some t')
    (q : ρ → Bool) : t'.count q = t.count q + if q r then 1 else 0 := by
  obtain ⟨-, hrows⟩ := insert?_eq_some.mp h
  rw [count, hrows, List.countP_append, List.countP_singleton]
  rfl

/-- An update counts as before where it changes no row's answer. -/
theorem count_update {t : Table key} {p : ρ → Bool} {f : ρ → ρ} (hf : ∀ r, key (f r) = key r)
    {q : ρ → Bool} (h : ∀ r ∈ t.rows, p r = true → q (f r) = q r) :
    (t.update p f hf).count q = t.count q := by
  rw [count, update, List.countP_map]
  refine List.countP_congr fun r hr => ?_
  simp only [Function.comp_apply]
  split
  · rename_i hp
    rw [h r hr hp]
  · rfl

/-- A delete counts as before what it does not delete. -/
theorem count_delete {t : Table key} {p q : ρ → Bool}
    (h : ∀ r ∈ t.rows, q r = true → p r = false) : (t.delete p).count q = t.count q := by
  rw [count, delete, List.countP_filter]
  refine List.countP_congr fun r hr => ?_
  constructor
  · intro hq
    exact (Bool.and_eq_true_iff.mp hq).1
  · intro hq
    rw [hq, h r hr hq]
    rfl

theorem count_pos {t : Table key} {p : ρ → Bool} :
    0 < t.count p ↔ ∃ r ∈ t.rows, p r = true := List.countP_pos_iff

/-- At most one row has a given key. -/
theorem count_le_one {t : Table key} {p : ρ → Bool} {k : κ}
    (h : ∀ r ∈ t.rows, p r = true → key r = k) : t.count p ≤ 1 := by
  rw [count, List.countP_eq_length_filter]
  rcases hrows : t.rows.filter p with _ | ⟨a, _ | ⟨b, l⟩⟩
  · simp
  · simp
  · have hnd : ((t.rows.filter p).map key).Nodup :=
      t.nodup.sublist (List.filter_sublist.map key)
    have ha := List.mem_filter.mp (hrows ▸ List.mem_cons_self : a ∈ t.rows.filter p)
    have hb := List.mem_filter.mp
      (hrows ▸ List.mem_cons_of_mem _ List.mem_cons_self : b ∈ t.rows.filter p)
    rw [hrows, List.map_cons, List.map_cons, h a ha.1 ha.2, h b hb.1 hb.2] at hnd
    simp at hnd

end Table

end E2Mail.Lib
