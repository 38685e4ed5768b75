import Mathlib.Order.Monotone.Basic
import Mathlib.Data.List.Basic
import Mathlib.Algebra.Order.Ring.Nat
import Mathlib.Tactic.Set

/-!
# The calendar

Days are counted from 1 January of year 1, which is a Monday.

* `yearStart`, `yearOf`, `yearDay` — years, and the day in the year.
* `monthStart`, `monthOf`, `monthDay` — months, and the day in the month.
* `isoYear`, `isoWeek` — the week of ISO 8601, which is of the year that its Thursday is of.
* `date_lt`, `week_lt` — dates and weeks are in order of time.
-/

namespace E2Mail.Lib.Calendar

/-! ## Years -/

/-- 29 February is in the year. -/
def isLeap (year : Nat) : Bool := year % 4 == 0 && (year % 100 != 0 || year % 400 == 0)

/-- The days before a year. -/
def yearStart (year : Nat) : Nat :=
  365 * (year - 1) + (year - 1) / 4 - (year - 1) / 100 + (year - 1) / 400

/-- The year of a day, by cycles of 400, 100, 4 and one years: the last of four may be longer. -/
def yearOf (day : Nat) : Nat :=
  let cycle := day % 146097
  let century := min 3 (cycle / 36524)
  let four := (cycle - 36524 * century) / 1461
  let year := min 3 ((cycle - 36524 * century - 1461 * four) / 365)
  400 * (day / 146097) + 100 * century + 4 * four + year + 1

/-- The days of the year before a day. -/
def yearDay (day : Nat) : Nat := day - yearStart (yearOf day)

section Years

variable {a b c e day day' : Nat}

theorem isLeap_iff {year : Nat} :
    isLeap year = true ↔ year % 4 = 0 ∧ (year % 100 ≠ 0 ∨ year % 400 = 0) := by
  rw [isLeap, Bool.and_eq_true, Bool.or_eq_true, beq_iff_eq, bne_iff_ne, beq_iff_eq]

theorem exists_cycles (n : Nat) : ∃ a b c e, b ≤ 3 ∧ c ≤ 24 ∧ e ≤ 3 ∧
    n = 400 * a + 100 * b + 4 * c + e :=
  ⟨n / 400, n % 400 / 100, n % 100 / 4, n % 4, by omega, by omega, by omega, by omega⟩

theorem yearStart_cycles (a : Nat) (hb : b ≤ 3) (hc : c ≤ 24) (he : e ≤ 3) :
    yearStart (400 * a + 100 * b + 4 * c + e + 1) =
      146097 * a + 36524 * b + 1461 * c + 365 * e := by
  rw [yearStart, Nat.add_sub_cancel]
  omega

theorem isLeap_cycles (a : Nat) (hb : b ≤ 3) (hc : c ≤ 24) (he : e ≤ 3) :
    isLeap (400 * a + 100 * b + 4 * c + e + 1) = true ↔ e = 3 ∧ (c ≠ 24 ∨ b = 3) := by
  rw [isLeap_iff]
  omega

/-- **The length of a year.** -/
theorem yearStart_succ (n : Nat) :
    yearStart (n + 2) = yearStart (n + 1) + if isLeap (n + 1) then 366 else 365 := by
  obtain ⟨a, b, c, e, hb, hc, he, rfl⟩ := exists_cycles n
  have hleap := isLeap_cycles a hb hc he
  rw [yearStart_cycles a hb hc he]
  -- the next year may begin a cycle of four, of a hundred or of four hundred years
  rcases Nat.lt_or_ge e 3 with hlt | hge
  · have hnext := yearStart_cycles a hb hc (Nat.succ_le_of_lt hlt)
    have hnot : ¬ isLeap (400 * a + 100 * b + 4 * c + e + 1) = true := fun h => by
      have := hleap.mp h
      omega
    rw [if_neg hnot,
      show 400 * a + 100 * b + 4 * c + e + 2 = 400 * a + 100 * b + 4 * c + (e + 1) + 1 from rfl, hnext]
    omega
  obtain rfl : e = 3 := by omega
  rcases Nat.lt_or_ge c 24 with hlt | hge
  · have hnext := yearStart_cycles a hb (Nat.succ_le_of_lt hlt) (Nat.zero_le 3)
    rw [if_pos (hleap.mpr ⟨rfl, .inl (Nat.ne_of_lt hlt)⟩),
      show 400 * a + 100 * b + 4 * c + 3 + 2 = 400 * a + 100 * b + 4 * (c + 1) + 0 + 1 by omega, hnext]
    omega
  obtain rfl : c = 24 := by omega
  rcases Nat.lt_or_ge b 3 with hlt | hge
  · have hnext := yearStart_cycles a (Nat.succ_le_of_lt hlt) (Nat.zero_le 24) (Nat.zero_le 3)
    have hnot : ¬ isLeap (400 * a + 100 * b + 4 * 24 + 3 + 1) = true := fun h => by
      have := hleap.mp h
      omega
    rw [if_neg hnot,
      show 400 * a + 100 * b + 4 * 24 + 3 + 2 = 400 * a + 100 * (b + 1) + 4 * 0 + 0 + 1 by omega, hnext]
    omega
  · obtain rfl : b = 3 := by omega
    have hnext := yearStart_cycles (a + 1) (Nat.zero_le 3) (Nat.zero_le 24) (Nat.zero_le 3)
    rw [if_pos (hleap.mpr ⟨rfl, .inr rfl⟩),
      show 400 * a + 100 * 3 + 4 * 24 + 3 + 2 = 400 * (a + 1) + 100 * 0 + 4 * 0 + 0 + 1 by omega, hnext]
    omega

/-- **The year a day is in.** -/
theorem yearOf_spec (day : Nat) :
    ∃ n, yearOf day = n + 1 ∧ yearStart (n + 1) ≤ day ∧ day < yearStart (n + 2) := by
  set cycle := day % 146097 with hcycle
  set century := min 3 (cycle / 36524) with hcentury
  set four := (cycle - 36524 * century) / 1461 with hfour
  set year := min 3 ((cycle - 36524 * century - 1461 * four) / 365) with hyear
  have hb : century ≤ 3 := Nat.min_le_left 3 _
  have he : year ≤ 3 := Nat.min_le_left 3 _
  have hc : four ≤ 24 := by omega
  have hstart := yearStart_cycles (day / 146097) hb hc he
  refine ⟨400 * (day / 146097) + 100 * century + 4 * four + year, rfl, ?_, ?_⟩
  · rw [hstart]
    omega
  · have hleap := isLeap_cycles (day / 146097) hb hc he
    rw [yearStart_succ, hstart]
    by_cases hl : isLeap (400 * (day / 146097) + 100 * century + 4 * four + year + 1) = true
    · rw [if_pos hl]
      omega
    · rw [if_neg hl]
      rw [hleap] at hl
      omega

theorem yearStart_mono : Monotone yearStart := by
  refine monotone_nat_of_le_succ fun year => ?_
  cases year with
  | zero => exact Nat.le_refl 0
  | succ n =>
    rw [yearStart_succ]
    exact Nat.le_add_right _ _

theorem yearStart_le (day : Nat) : yearStart (yearOf day) ≤ day := by
  obtain ⟨n, hyear, hle, -⟩ := yearOf_spec day
  rwa [hyear]

theorem lt_yearStart (day : Nat) : day < yearStart (yearOf day + 1) := by
  obtain ⟨n, hyear, -, hlt⟩ := yearOf_spec day
  rwa [hyear]

theorem yearOf_lt_iff {year : Nat} : yearOf day < year ↔ day < yearStart year := by
  constructor
  · intro hlt
    exact Nat.lt_of_lt_of_le (lt_yearStart day) (yearStart_mono hlt)
  · intro hlt
    refine Nat.lt_of_not_le fun hle => ?_
    exact Nat.lt_irrefl day (Nat.lt_of_lt_of_le hlt
      (Nat.le_trans (yearStart_mono hle) (yearStart_le day)))

theorem yearOf_mono (h : day ≤ day') : yearOf day ≤ yearOf day' := by
  have hlt : day < yearStart (yearOf day' + 1) := Nat.lt_of_le_of_lt h (lt_yearStart day')
  exact Nat.le_of_lt_succ (yearOf_lt_iff.mpr hlt)

theorem add_yearDay (day : Nat) : yearStart (yearOf day) + yearDay day = day :=
  Nat.add_sub_cancel' (yearStart_le day)

theorem yearDay_lt (day : Nat) : yearDay day < if isLeap (yearOf day) then 366 else 365 := by
  obtain ⟨n, hyear, hle, hlt⟩ := yearOf_spec day
  rw [yearStart_succ] at hlt
  rw [yearDay, hyear]
  omega

theorem yearDay_lt_366 (day : Nat) : yearDay day < 366 := by
  have hlt := yearDay_lt day
  split at hlt
  · exact hlt
  · exact Nat.lt_succ_of_lt hlt

end Years

/-! ## Months -/

/-- The days of each month. -/
def monthLengths (leap : Bool) : List Nat :=
  [31, if leap then 29 else 28, 31, 30, 31, 30, 31, 31, 30, 31, 30, 31]

/-- The days of a year before its `n + 1`-st month. -/
def monthStart (leap : Bool) (n : Nat) : Nat := ((monthLengths leap).take n).sum

/-- How many months of a year are over. -/
def monthsOver (leap : Bool) (yday : Nat) : Nat :=
  (List.range 11).countP fun n => monthStart leap (n + 1) ≤ yday

/-- The month of a day, from 1. -/
def monthOf (day : Nat) : Nat := monthsOver (isLeap (yearOf day)) (yearDay day) + 1

/-- The day of the month, from 1. -/
def monthDay (day : Nat) : Nat :=
  yearDay day - monthStart (isLeap (yearOf day)) (monthsOver (isLeap (yearOf day)) (yearDay day)) + 1

section Months

variable {day day' : Nat} {leap : Bool} {yday yday' : Nat}

theorem monthsOver_mono (leap : Bool) (h : yday ≤ yday') : monthsOver leap yday ≤ monthsOver leap yday' := by
  refine List.countP_mono_left fun n _ hn => ?_
  rw [decide_eq_true_eq] at hn ⊢
  exact Nat.le_trans hn h

theorem monthOf_pos (day : Nat) : 0 < monthOf day := Nat.succ_pos _

theorem monthOf_le (day : Nat) : monthOf day ≤ 12 :=
  Nat.succ_le_succ List.countP_le_length

/-- The month that is not over has begun, and has at most 31 days. -/
theorem monthStart_le (h : yday < if leap then 366 else 365) :
    monthStart leap (monthsOver leap yday) ≤ yday ∧
      yday - monthStart leap (monthsOver leap yday) < 31 := by
  have hall : ∀ leap, ∀ yday < if leap then 366 else 365,
      monthStart leap (monthsOver leap yday) ≤ yday ∧
        yday - monthStart leap (monthsOver leap yday) < 31 := by decide +kernel
  exact hall leap yday h

theorem monthDay_le (day : Nat) : monthDay day ≤ 31 :=
  (monthStart_le (yearDay_lt day)).2

/-- **Dates are in order of time.** -/
theorem date_lt (h : day < day') : yearOf day < yearOf day' ∨ yearOf day = yearOf day' ∧
    (monthOf day < monthOf day' ∨ monthOf day = monthOf day' ∧ monthDay day < monthDay day') := by
  rcases Nat.lt_or_eq_of_le (yearOf_mono (Nat.le_of_lt h)) with hlt | hyear
  · exact .inl hlt
  refine .inr ⟨hyear, ?_⟩
  have hyday : yearDay day < yearDay day' := by
    have hday := add_yearDay day
    have hday' := add_yearDay day'
    rw [← hyear] at hday'
    omega
  rw [monthOf, monthOf, monthDay, monthDay, ← hyear]
  rcases Nat.lt_or_eq_of_le (monthsOver_mono (isLeap (yearOf day)) (Nat.le_of_lt hyday)) with
    hlt | hmonth
  · exact .inl (Nat.succ_lt_succ hlt)
  refine .inr ⟨congrArg (· + 1) hmonth, ?_⟩
  rw [← hmonth]
  have hle := (monthStart_le (yearDay_lt day)).1
  omega

end Months

/-! ## Weeks -/

/-- The Thursday of the week of a day. -/
def thursday (day : Nat) : Nat := 7 * (day / 7) + 3

/-- The year that the week of a day is of. -/
def isoYear (day : Nat) : Nat := yearOf (thursday day)

/-- The week of a day, from 1. -/
def isoWeek (day : Nat) : Nat := yearDay (thursday day) / 7 + 1

section Weeks

variable {day day' : Nat}

theorem isoWeek_le (day : Nat) : isoWeek day ≤ 53 := by
  have hlt := yearDay_lt_366 (thursday day)
  rw [isoWeek]
  omega

/-- **Weeks are in order of time.** -/
theorem week_lt (h : day / 7 < day' / 7) : isoYear day < isoYear day' ∨
    isoYear day = isoYear day' ∧ isoWeek day < isoWeek day' := by
  have hthursday : thursday day + 7 ≤ thursday day' := by
    rw [thursday, thursday]
    omega
  have hle : thursday day ≤ thursday day' := Nat.le_of_add_right_le hthursday
  rcases Nat.lt_or_eq_of_le (yearOf_mono hle) with hlt | hyear
  · exact .inl hlt
  refine .inr ⟨hyear, ?_⟩
  have hday := add_yearDay (thursday day)
  have hday' := add_yearDay (thursday day')
  rw [← hyear] at hday'
  rw [isoWeek, isoWeek]
  omega

theorem week_eq (h : day / 7 = day' / 7) : isoYear day = isoYear day' ∧ isoWeek day = isoWeek day' := by
  rw [isoYear, isoYear, isoWeek, isoWeek, thursday, thursday, h]
  exact ⟨rfl, rfl⟩

end Weeks

end E2Mail.Lib.Calendar
