import Mathlib.Data.Finset.Card
import Mathlib.Data.Finset.Sort

/-!
# Rotation

Of a set, the newest few: those that have less than `keep` above them. In a sorted list they are the
last ones.

* `newest` — the elements that a rotation keeps.
* `mem_drop_iff` — in a sorted list they are what is left after the first ones are dropped.
-/

namespace E2Mail.Lib.Rotation

variable {α : Type} [LinearOrder α]

/-- The `keep` greatest elements. -/
def newest (keep : Nat) (S : Finset α) : Finset α :=
  S.filter fun a => (S.filter fun b => a < b).card < keep

theorem mem_newest {keep : Nat} {S : Finset α} {a : α} :
    a ∈ newest keep S ↔ a ∈ S ∧ (S.filter fun b => a < b).card < keep :=
  Finset.mem_filter

theorem card_filter_toFinset [DecidableEq α] {l : List α} (h : l.Nodup) (a : α) :
    (l.toFinset.filter fun b => a < b).card = (l.filter fun b => a < b).length := by
  rw [← List.toFinset_card_of_nodup (h.filter _)]
  congr 1
  ext b
  rw [Finset.mem_filter, List.mem_toFinset, List.mem_toFinset, List.mem_filter, decide_eq_true_eq]

/-- **What a sorted list ends with.** -/
theorem mem_drop_iff [DecidableEq α] {l : List α} (h : l.Pairwise (· < ·)) (keep : Nat) {a : α} :
    a ∈ l.drop (l.length - keep) ↔ a ∈ newest keep l.toFinset := by
  have hnodup : l.Nodup := h.imp ne_of_lt
  rw [mem_newest, card_filter_toFinset hnodup, List.mem_toFinset]
  set k := l.length - keep with hk
  have hsplit : l.take k ++ l.drop k = l := List.take_append_drop k l
  -- whoever is in front is below whoever is behind
  have hbelow : ∀ b ∈ l.take k, ∀ c ∈ l.drop k, b < c := by
    rw [← hsplit] at h
    exact (List.pairwise_append.mp h).2.2
  have hlength : (l.drop k).length = l.length - k := List.length_drop
  constructor
  · intro ha
    refine ⟨List.mem_of_mem_drop ha, ?_⟩
    have hfront : (l.take k).filter (fun b => a < b) = [] := by
      refine List.filter_eq_nil_iff.mpr fun b hb => ?_
      rw [decide_eq_true_eq]
      exact not_lt_of_gt (hbelow b hb a ha)
    have hself : ((l.drop k).filter fun b => a < b).length < (l.drop k).length :=
      List.length_filter_lt_length_iff_exists.mpr ⟨a, ha, by simp⟩
    rw [← hsplit, List.filter_append, hfront, List.nil_append]
    omega
  · rintro ⟨hmem, hcard⟩
    rw [← hsplit] at hmem
    rcases List.mem_append.mp hmem with hfront | hback
    · have hall : (l.drop k).filter (fun b => a < b) = l.drop k :=
        List.filter_eq_self.mpr fun c hc => decide_eq_true (hbelow a hfront c hc)
      have hpos : 0 < k := List.length_pos_of_mem hfront |>.trans_le (List.length_take_le k l)
      rw [← hsplit, List.filter_append, List.length_append, hall] at hcard
      omega
    · exact hback

end E2Mail.Lib.Rotation
