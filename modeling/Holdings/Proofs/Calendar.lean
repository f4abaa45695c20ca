import Holdings.Instant
import Mathlib.Algebra.Ring.Nat
/-!
# The calendar runs forward

The year that is guessed for a day is the one that holds it, and the months of a year are
passed in order. So years and months of days, and with them those of instants, never go back
while time goes on. Nothing here depends on the bounds of the calendar.
-/

namespace Holdings

namespace Calendar

/-! ## Years -/

theorem sum_monthLengths (year : Int) :
    (monthLengths year).sum = if isLeap year then 366 else 365 := by
  unfold monthLengths
  cases isLeap year <;> rfl

theorem yearStart_succ (year : Int) :
    yearStart (year + 1) = yearStart year + (monthLengths year).sum := by
  rw [sum_monthLengths]
  cases h : isLeap year with
  | true =>
      simp only [isLeap, Bool.and_eq_true, Bool.or_eq_true, decide_eq_true_eq] at h
      simp only [yearStart, if_true]
      omega
  | false =>
      simp only [isLeap, Bool.and_eq_false_iff, Bool.or_eq_false_iff, decide_eq_false_iff_not]
        at h
      simp only [yearStart, Bool.false_eq_true, if_false]
      omega

theorem yearStart_mono {y y' : Int} (h : y ≤ y') : yearStart y ≤ yearStart y' := by
  simp only [yearStart]
  omega

/-- The guess from the mean length of a year is off by one year at most. -/
theorem yearStart_guess_le (n : Int) : yearStart (400 * (n + 719162) / 146097) ≤ n := by
  simp only [yearStart]
  omega

theorem lt_yearStart_guess (n : Int) : n < yearStart (400 * (n + 719162) / 146097 + 3) := by
  simp only [yearStart]
  omega

/-- A day does not come before the year that is found for it. -/
theorem yearStart_yearOfDay_le (n : Int) : yearStart (yearOfDay n) ≤ n := by
  have hg := yearStart_guess_le n
  simp only [yearOfDay]
  split
  · rwa [Int.add_sub_cancel]
  · split
    · assumption
    · omega

/-- A day comes before the year after the one that is found for it. -/
theorem lt_yearStart_yearOfDay_succ (n : Int) : n < yearStart (yearOfDay n + 1) := by
  have hg := lt_yearStart_guess n
  simp only [yearOfDay]
  split
  · rwa [Int.sub_add_cancel]
  · split
    · rw [Int.add_assoc, Int.add_assoc]; exact hg
    · omega

theorem yearOfDay_mono {m n : Int} (h : m ≤ n) : yearOfDay m ≤ yearOfDay n := by
  by_cases hc : yearOfDay m ≤ yearOfDay n
  · exact hc
  · have hy : yearOfDay n + 1 ≤ yearOfDay m := by omega
    have h₁ := lt_yearStart_yearOfDay_succ n
    have h₂ := yearStart_mono hy
    have h₃ := yearStart_yearOfDay_le m
    omega

/-! ## Months -/

theorem wholeMonths_mono (lengths : List Nat) {m n : Nat} (h : m ≤ n) :
    wholeMonths lengths m ≤ wholeMonths lengths n := by
  induction lengths generalizing m n with
  | nil => exact Nat.le_refl 0
  | cons length lengths ih =>
      simp only [wholeMonths]
      by_cases hm : m < length
      · rw [if_pos hm]
        exact Nat.zero_le _
      · have hn : ¬ n < length := by omega
        rw [if_neg hm, if_neg hn]
        exact Nat.succ_le_succ (ih (Nat.sub_le_sub_right h length))

theorem wholeMonths_lt_length {lengths : List Nat} {n : Nat} (h : n < lengths.sum) :
    wholeMonths lengths n < lengths.length := by
  induction lengths generalizing n with
  | nil => exact absurd h (Nat.not_lt_zero n)
  | cons length lengths ih =>
      rw [List.sum_cons] at h
      simp only [wholeMonths, List.length_cons]
      split
      · exact Nat.succ_pos _
      · exact Nat.succ_lt_succ (ih (by omega))

/-- Days passed since the year began do not fill the year. -/
theorem dayOfYear_lt (n : Int) :
    (n - yearStart (yearOfDay n)).toNat < (monthLengths (yearOfDay n)).sum := by
  have h₁ := yearStart_yearOfDay_le n
  have h₂ := lt_yearStart_yearOfDay_succ n
  rw [yearStart_succ] at h₂
  omega

theorem one_le_monthOfDay (n : Int) : 1 ≤ monthOfDay n := Nat.succ_le_succ (Nat.zero_le _)

theorem monthOfDay_le (n : Int) : monthOfDay n ≤ 12 := wholeMonths_lt_length (dayOfYear_lt n)

/-- Counted through all years, months never go back. -/
theorem monthCount_mono {m n : Int} (h : m ≤ n) :
    12 * yearOfDay m + monthOfDay m ≤ 12 * yearOfDay n + monthOfDay n := by
  rcases Int.lt_or_eq_of_le (yearOfDay_mono h) with hlt | heq
  · have hm := monthOfDay_le m
    have hn := one_le_monthOfDay n
    omega
  · have hd : (m - yearStart (yearOfDay m)).toNat ≤ (n - yearStart (yearOfDay n)).toNat := by
      rw [heq]
      omega
    have hw := wholeMonths_mono (monthLengths (yearOfDay n)) hd
    simp only [monthOfDay, heq] at hw ⊢
    omega

end Calendar

/-! ## Instants -/

namespace Instant

variable {a b : Instant}

instance : Std.TransCmp compare :=
  inferInstanceAs (Std.TransCmp (compareLex (compareOn seconds) (compareOn nanos)))

theorem isLE_compare_iff :
    (a.compare b).isLE ↔ a.seconds < b.seconds ∨ a.seconds = b.seconds ∧ a.nanos ≤ b.nanos := by
  simp only [Ordering.isLE_iff_ne_gt, compare, Ordering.then_eq_gt, Std.compare_eq_gt,
    Std.compare_eq_iff_eq]
  omega

theorem day_mono (h : (a.compare b).isLE) : a.day ≤ b.day := by
  have hs : a.seconds ≤ b.seconds := by
    rcases isLE_compare_iff.mp h with h | ⟨h, -⟩ <;> omega
  exact Int.ediv_le_ediv (by decide) hs

theorem year_mono (h : (a.compare b).isLE) : a.year ≤ b.year :=
  Calendar.yearOfDay_mono (day_mono h)

theorem month_mono (h : (a.compare b).isLE) : a.month ≤ b.month :=
  Calendar.monthCount_mono (day_mono h)

end Instant

end Holdings
