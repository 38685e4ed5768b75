import Mathlib.Data.List.Sort
import Mathlib.Data.List.Nodup

/-!
# Pages of a list that is sorted again for each page

A list is shown page by page. Each page is cut from the list as it was sorted for
that page, by a sort that may leave items with the same key in any order. The pages
together hold every item once, whatever the sorts did, just if no page ends within
a group of items with the same key.

* `Descending` — the outcomes of the sort;
* `position` — where an item can be: after the items above it, among its equals;
* `Unsplit` — no page ends within a group;
* `pages_perm_iff` — the pages together are the list just in that case.
-/

namespace E2Mail.Lib

variable {α κ : Type} [LinearOrder κ] {key : α → κ}

/-- The outcomes of a sort by the key, the largest first. -/
def Descending (key : α → κ) (l order : List α) : Prop :=
  order.Perm l ∧ order.Pairwise fun a b => key b ≤ key a

/-- The items of a page, counted from 0. -/
def page (limit p : Nat) (l : List α) : List α := (l.drop (p * limit)).take limit

/-- How many pages a list fills. -/
def pageCount (limit : Nat) (l : List α) : Nat := (l.length + limit - 1) / limit

/-- The pages of a list, each from its own sort. -/
def pages (limit : Nat) (l : List α) (orders : Nat → List α) : List α :=
  (List.range (pageCount limit l)).flatMap fun p => page limit p (orders p)

/-- How many items are above the key of an item. -/
def above (key : α → κ) (l : List α) (a : α) : Nat := l.countP fun b => decide (key a < key b)

/-- How many items are above it or equal. -/
def atLeast (key : α → κ) (l : List α) (a : α) : Nat := l.countP fun b => decide (key a ≤ key b)

/-- **Unsplit**: no page ends between two items of the same key. -/
def Unsplit (key : α → κ) (limit : Nat) (l : List α) : Prop :=
  ∀ a ∈ l, ∀ k, ¬(above key l a < k * limit ∧ k * limit < atLeast key l a)

variable {l order : List α} {a : α} {i k limit p : Nat}

/-! ## Positions -/

/-- **The position** of an item is after the items above it and before those below. -/
theorem position (h : Descending key l order) (hi : order[i]? = some a) :
    above key l a ≤ i ∧ i < atLeast key l a := by
  obtain ⟨hperm, hsorted⟩ := h
  obtain ⟨hlt, rfl⟩ := List.getElem?_eq_some_iff.mp hi
  have hpair := List.pairwise_iff_getElem.mp hsorted
  have hparts : ∀ (q : α → Bool) n, l.countP q = (order.take n).countP q + (order.drop n).countP q := by
    intro q n
    rw [← List.countP_append, List.take_append_drop, hperm.countP_eq]
  refine ⟨?_, ?_⟩
  · -- what is above the item stands before it
    have hbehind : (order.drop i).countP (fun b => decide (key order[i] < key b)) = 0 := by
      refine List.countP_eq_zero.mpr fun b hb => ?_
      obtain ⟨j, hj, rfl⟩ := List.mem_iff_getElem.mp hb
      rw [List.getElem_drop, decide_eq_true_eq, not_lt]
      rcases Nat.eq_zero_or_pos j with rfl | hj0
      · exact le_refl _
      · rw [List.length_drop] at hj
        exact hpair i (i + j) hlt (by omega) (by omega)
    rw [above, hparts _ i, hbehind, Nat.add_zero]
    exact Nat.le_trans List.countP_le_length (List.length_take_le i order)
  · -- what stands before the item is not below it
    have hbefore : (order.take (i + 1)).countP (fun b => decide (key order[i] ≤ key b)) = i + 1 := by
      have hlen : (order.take (i + 1)).length = i + 1 := by
        rw [List.length_take]
        omega
      refine (List.countP_eq_length.mpr fun b hb => ?_).trans hlen
      obtain ⟨j, hj, rfl⟩ := List.mem_iff_getElem.mp hb
      rw [hlen] at hj
      rw [List.getElem_take, decide_eq_true_eq]
      rcases Nat.eq_or_lt_of_le (Nat.le_of_lt_succ hj) with rfl | hji
      · exact le_refl _
      · exact hpair j i (by omega) hlt hji
    rw [atLeast, hparts _ (i + 1), hbefore]
    omega

/-- An item is on a page just if its position is. -/
theorem mem_page : a ∈ page limit p order ↔
    ∃ i, order[i]? = some a ∧ p * limit ≤ i ∧ i < (p + 1) * limit := by
  rw [page, List.mem_iff_getElem?, Nat.succ_mul]
  refine ⟨?_, ?_⟩
  · rintro ⟨j, hj⟩
    rw [List.getElem?_take, List.getElem?_drop] at hj
    by_cases hlt : j < limit
    · rw [if_pos hlt] at hj
      exact ⟨p * limit + j, hj, by omega, by omega⟩
    · rw [if_neg hlt] at hj
      cases hj
  · rintro ⟨i, hi, hle, hlt⟩
    refine ⟨i - p * limit, ?_⟩
    rw [List.getElem?_take, if_pos (by omega), List.getElem?_drop,
      show p * limit + (i - p * limit) = i by omega]
    exact hi

/-! ## Pages that hold every item once -/

/-- Where no page ends within a group, the page of an item is the page of its group. -/
theorem mem_page_of_unsplit (h : Unsplit key limit l) (ho : Descending key l order) :
    a ∈ page limit p order ↔
      a ∈ l ∧ p * limit < atLeast key l a ∧ atLeast key l a ≤ (p + 1) * limit := by
  have hbound : ∀ i k, order[i]? = some a → (i < k * limit ↔ atLeast key l a ≤ k * limit) := by
    intro i k hi
    have hmem := ho.1.mem_iff.mp (List.mem_of_getElem? hi)
    have hpos := position ho hi
    have hun := h a hmem k
    omega
  rw [mem_page]
  refine ⟨?_, ?_⟩
  · rintro ⟨i, hi, hle, hlt⟩
    have hnot := (hbound i p hi).not
    refine ⟨ho.1.mem_iff.mp (List.mem_of_getElem? hi), ?_, (hbound i (p + 1) hi).mp hlt⟩
    omega
  · rintro ⟨hmem, hlt, hle⟩
    obtain ⟨i, hi⟩ := List.mem_iff_getElem?.mp (ho.1.mem_iff.mpr hmem)
    have hnot := (hbound i p hi).not
    exact ⟨i, hi, by omega, (hbound i (p + 1) hi).mpr hle⟩

theorem nodup_page (hl : l.Nodup) (ho : Descending key l order) : (page limit p order).Nodup :=
  (ho.1.nodup_iff.mpr hl).sublist ((List.take_sublist _ _).trans (List.drop_sublist _ _))

/-- Where no page ends within a group, the pages hold every item once. -/
theorem pages_perm (hl : l.Nodup) (hlimit : 0 < limit) (h : Unsplit key limit l)
    {orders : Nat → List α} (ho : ∀ p, Descending key l (orders p)) :
    (pages limit l orders).Perm l := by
  have hnodup : (pages limit l orders).Nodup := by
    rw [pages, List.nodup_flatMap]
    refine ⟨fun p _ => nodup_page hl (ho p), ?_⟩
    refine List.pairwise_iff_getElem.mpr fun i j hi hj hij => ?_
    simp only [List.getElem_range]
    intro a hai haj
    have hi' := (mem_page_of_unsplit h (ho i)).mp hai
    have hj' := (mem_page_of_unsplit h (ho j)).mp haj
    have hle : (i + 1) * limit ≤ j * limit := Nat.mul_le_mul_right limit hij
    omega
  refine (List.perm_ext_iff_of_nodup hnodup hl).mpr fun a => ?_
  rw [pages, List.mem_flatMap]
  refine ⟨?_, fun ha => ?_⟩
  · rintro ⟨p, -, hp⟩
    exact ((mem_page_of_unsplit h (ho p)).mp hp).1
  · have hpos : 0 < atLeast key l a :=
      List.countP_pos_iff.mpr ⟨a, ha, decide_eq_true (le_refl (key a))⟩
    have hle : atLeast key l a ≤ l.length := List.countP_le_length
    have hdiv := Nat.div_add_mod (atLeast key l a - 1) limit
    have hmod := Nat.mod_lt (atLeast key l a - 1) hlimit
    have hcomm : limit * ((atLeast key l a - 1) / limit) =
      (atLeast key l a - 1) / limit * limit := Nat.mul_comm _ _
    refine ⟨(atLeast key l a - 1) / limit, ?_, (mem_page_of_unsplit h (ho _)).mpr ⟨ha, ?_, ?_⟩⟩
    · rw [List.mem_range, pageCount, Nat.div_lt_iff_lt_mul hlimit]
      have hceil := Nat.lt_div_mul_add (a := l.length + limit - 1) hlimit
      omega
    · omega
    · rw [Nat.succ_mul]
      omega

/-- The pages up to one of them together are the beginning of the list. -/
theorem flatMap_page (n : Nat) :
    (List.range n).flatMap (fun p => page limit p l) = l.take (n * limit) := by
  induction n with
  | zero => simp
  | succ n ih =>
    rw [List.range_succ, List.flatMap_append, ih, List.flatMap_singleton, page, Nat.succ_mul,
      List.take_add]

/-- **All pages** of one list together are the list. -/
theorem flatMap_page_pageCount (hlimit : 0 < limit) :
    (List.range (pageCount limit l)).flatMap (fun p => page limit p l) = l := by
  have hceil := Nat.lt_div_mul_add (a := l.length + limit - 1) hlimit
  rw [flatMap_page, pageCount, List.take_of_length_le (by omega)]

/-! ## Pages that do not -/

/-- Two neighbours of the same key may change places. -/
theorem descending_swap {before behind : List α} {x y : α}
    (h : Descending key l (before ++ x :: y :: behind)) (hxy : key x = key y) :
    Descending key l (before ++ y :: x :: behind) := by
  obtain ⟨hperm, hsorted⟩ := h
  refine ⟨((List.Perm.swap x y behind).append_left before).trans hperm, ?_⟩
  rw [List.pairwise_append, List.pairwise_cons, List.pairwise_cons] at hsorted ⊢
  obtain ⟨hbefore, ⟨hx, hy, hbehind⟩, hacross⟩ := hsorted
  refine ⟨hbefore, ⟨?_, ?_, hbehind⟩, ?_⟩
  · intro b hb
    rcases List.mem_cons.mp hb with rfl | hb
    · exact le_of_eq hxy
    · exact hy b hb
  · intro b hb
    exact hx b (List.mem_cons_of_mem y hb)
  · intro c hc b hb
    refine hacross c hc b ?_
    simp only [List.mem_cons] at hb ⊢
    tauto

theorem exists_descending (key : α → κ) (l : List α) : ∃ order, Descending key l order :=
  ⟨l.insertionSort fun a b => key b ≤ key a, List.perm_insertionSort _ l,
    List.pairwise_insertionSort (r := fun a b => key b ≤ key a) l⟩

/-- Where a page ends within a group, two sorts may show an item on both sides. -/
theorem not_nodup_pages (hlimit : 0 < limit)
    (hsplit : above key l a < k * limit ∧ k * limit < atLeast key l a) :
    ∃ orders : Nat → List α, (∀ p, Descending key l (orders p)) ∧
      ¬(pages limit l orders).Nodup := by
  obtain ⟨order, ho⟩ := exists_descending key l
  have hlen : order.length = l.length := ho.1.length_eq
  have hle : atLeast key l a ≤ l.length := List.countP_le_length
  have hlast : k * limit < order.length := by omega
  have hpos : 0 < k * limit := by omega
  -- the items on both sides of the end of the page have the key of `a`
  have hkey : ∀ i (hi : i < order.length), above key l a ≤ i → i < atLeast key l a →
      key order[i] = key a := by
    intro i hi hfrom hto
    have hget : order[i]? = some order[i] := List.getElem?_eq_getElem hi
    have hp := position ho hget
    rcases lt_trichotomy (key order[i]) (key a) with hlt | heq | hgt
    · have hmono : atLeast key l a ≤ above key l order[i] :=
        List.countP_mono_left fun b _ hb => decide_eq_true (lt_of_lt_of_le hlt (of_decide_eq_true hb))
      omega
    · exact heq
    · have hmono : atLeast key l order[i] ≤ above key l a :=
        List.countP_mono_left fun b _ hb => decide_eq_true (lt_of_lt_of_le hgt (of_decide_eq_true hb))
      omega
  have hprev : k * limit - 1 < order.length := by omega
  obtain ⟨before, behind, hsplitted, hlenb⟩ : ∃ before behind,
      order = before ++ order[k * limit - 1] :: order[k * limit] :: behind ∧
        before.length = k * limit - 1 := by
    refine ⟨order.take (k * limit - 1), order.drop (k * limit + 1), ?_, ?_⟩
    · have hsucc : k * limit - 1 + 1 = k * limit := by omega
      have hfirst := List.drop_eq_getElem_cons hprev
      rw [hsucc, List.drop_eq_getElem_cons hlast] at hfirst
      rw [← hfirst, List.take_append_drop]
    · rw [List.length_take]
      omega
  have hxy : key order[k * limit - 1] = key order[k * limit] := by
    rw [hkey _ hprev (by omega) (by omega), hkey _ hlast (by omega) (by omega)]
  generalize order[k * limit - 1] = x at hsplitted hxy
  generalize order[k * limit] = y at hsplitted hxy
  have hswap : Descending key l (before ++ y :: x :: behind) :=
    descending_swap (hsplitted ▸ ho) hxy
  obtain ⟨k, rfl⟩ : ∃ k', k = k' + 1 := ⟨k - 1, by
    rcases k with _ | k
    · simp at hpos
    · rfl⟩
  refine ⟨fun p => if p = k then order else before ++ y :: x :: behind, fun p => ?_, fun hnd => ?_⟩
  · by_cases hp : p = k
    · simpa [hp] using ho
    · simpa [hp] using hswap
  · have hx₁ : x ∈ page limit k order := by
      refine mem_page.mpr ⟨(k + 1) * limit - 1, ?_, ?_, by omega⟩
      · rw [hsplitted, List.getElem?_append_right (by omega), hlenb, Nat.sub_self]
        rfl
      · rw [Nat.succ_mul]
        omega
    have hx₂ : x ∈ page limit (k + 1) (before ++ y :: x :: behind) := by
      refine mem_page.mpr ⟨(k + 1) * limit, ?_, Nat.le_refl _, ?_⟩
      · rw [List.getElem?_append_right (by omega), hlenb,
          show (k + 1) * limit - ((k + 1) * limit - 1) = 1 by omega]
        rfl
      · rw [Nat.succ_mul (k + 1)]
        omega
    have hcount : k + 1 < pageCount limit l := by
      rw [pageCount, Nat.lt_div_iff_mul_lt hlimit]
      rw [hlen] at hlast
      omega
    rw [pages, List.nodup_flatMap] at hnd
    have hdisjoint := List.pairwise_iff_getElem.mp hnd.2 k (k + 1)
      (by rw [List.length_range]; omega) (by rwa [List.length_range]) (by omega)
    simp only [List.getElem_range, Function.onFun, if_true, if_neg (Nat.succ_ne_self k)] at hdisjoint
    exact hdisjoint hx₁ hx₂

/-- **Pages** hold every item once, whatever the sorts did, just if none of them ends within
a group of items with the same key. -/
theorem pages_perm_iff (hl : l.Nodup) (hlimit : 0 < limit) :
    (∀ orders : Nat → List α, (∀ p, Descending key l (orders p)) → (pages limit l orders).Perm l) ↔
      Unsplit key limit l := by
  refine ⟨fun hall a _ k hsplit => ?_, fun h orders ho => pages_perm hl hlimit h ho⟩
  obtain ⟨orders, ho, hnd⟩ := not_nodup_pages hlimit hsplit
  exact hnd ((hall orders ho).nodup_iff.mpr hl)

end E2Mail.Lib
