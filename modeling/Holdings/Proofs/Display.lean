import Holdings.Proofs.Notations
/-!
# What is read, and shown again

A date that is read is a year, a month of a year, or a day of the calendar (`Spells.isSound`), and
what holds of its parts and of its first day holds of all such dates. The text that shows a date is
one of its spellings, though mostly not the one that it was read from; so reading it gives the date
again, and by the grammar alone.
-/

namespace Holdings

namespace Text

variable {s : List Char} {k n : Nat}

/-! ## Digits -/

theorem ofDigitChars_lt (h : ∀ c ∈ s, c.isDigit = true) :
    Nat.ofDigitChars 10 s 0 < 10 ^ s.length := by
  induction s with
  | nil => exact Nat.one_pos
  | cons c s ih =>
      obtain ⟨hc, hs⟩ := List.forall_mem_cons.mp h
      have hdigit : c.toNat - '0'.toNat ≤ 9 := by
        have := (toNat_of_isDigit hc).2
        exact Nat.sub_le_of_le_add this
      have hmul := Nat.mul_le_mul_left (10 ^ s.length) hdigit
      have := ih hs
      rw [Nat.ofDigitChars_cons, Nat.ofDigitChars_eq_ofDigitChars_zero, Nat.mul_zero, Nat.zero_add,
        List.length_cons, Nat.pow_succ]
      omega

theorem IsDigits.lt (h : IsDigits k s n) : n < 10 ^ k := by
  rw [← h.value, ← h.length_eq]
  exact ofDigitChars_lt h.digits

/-- Filled up with zeros, a number that fits has just as many digits as there are places. -/
theorem isDigits_padded (hk : 0 < k) (h : n < 10 ^ k) : IsDigits k (padded k n) n := by
  have hdigits : (toString n).toList = Nat.toDigits 10 n := Nat.toList_repr
  have hlen : (Nat.toDigits 10 n).length ≤ k :=
    (Nat.length_toDigits_le_iff (by decide) hk).mpr h
  have hn := isNumeral_toDigits n
  rw [padded, hdigits]
  refine ⟨⟨by simp [hn.ne_nil], ?_, ?_⟩, by simp [Nat.sub_add_cancel hlen]⟩
  · intro c hc
    rcases List.mem_append.mp hc with hc | hc
    · rw [List.eq_of_mem_replicate hc]
      rfl
    · exact hn.digits c hc
  · rw [Nat.ofDigitChars_append, Nat.ofDigitChars_replicate_zero, Nat.mul_zero, hn.value]

end Text

namespace PartialDate

open Text (IsDigits)

variable {s : String} {t : List Char} {d : PartialDate}

/-! ## Dates in four places -/

/-- A year of at most four digits, one of its months, or one of its days. -/
inductive IsSound : PartialDate → Prop
  | year {n : Nat} : n < 10000 → IsSound ⟨n, none, none⟩
  | month {n m : Nat} : n < 10000 → 1 ≤ m → m ≤ 12 → IsSound ⟨n, some m, none⟩
  | day {n m k : Nat} : n < 10000 → Calendar.isDate n m k = true → IsSound ⟨n, some m, some k⟩

theorem IsMonth.bounds {part : List Char} {m : Nat} (h : IsMonth part m) : 1 ≤ m ∧ m ≤ 12 := by
  cases h with
  | number _ _ hlow hhigh => exact ⟨hlow, hhigh⟩
  | name hname _ =>
      obtain ⟨hi, -⟩ := List.getElem?_eq_some_iff.mp hname
      exact ⟨Nat.succ_pos _, hi⟩

theorem Spells.isSound (h : Spells t d) : d.IsSound := by
  cases h with
  | year hy => exact .year hy.lt
  | openMonth hy _ => exact .year hy.lt
  | hidden hy _ _ => exact .year hy.lt
  | month hy hm => exact .month hy.lt hm.bounds.1 hm.bounds.2
  | openDay hy hm _ => exact .month hy.lt hm.bounds.1 hm.bounds.2
  | day hy _ _ _ hreal => exact .day hy.lt hreal
  | monthDigits hy _ hlow hhigh => exact .month hy.lt hlow hhigh
  | dayDigits hy _ _ hreal => exact .day hy.lt hreal
  | timestamp h =>
      obtain ⟨hy, -, -, hreal, -⟩ := h
      exact .day hy.lt hreal

/-! ## The first day -/

theorem isDate_first {n m : Nat} (hn : n < 10000) (hlow : 1 ≤ m) (hhigh : m ≤ 12) :
    Calendar.isDate n m 1 = true := by
  have hfirst : Calendar.firstYear ≤ n := Int.le_trans (by decide) (Int.natCast_nonneg n)
  have hlast : (n : Int) ≤ Calendar.lastYear :=
    Int.le_trans (Int.ofNat_le.mpr (Nat.le_of_lt hn)) (by decide)
  have hdays : 28 ≤ Calendar.daysInMonth n m := (Calendar.daysInMonth_bounds hlow hhigh).1
  simp only [Calendar.isDate, Bool.and_eq_true, decide_eq_true_eq]
  omega

theorem IsSound.isDate_firstDay (h : d.IsSound) :
    Calendar.isDate d.year (d.month.getD 1) (d.day.getD 1) = true := by
  cases h with
  | year hn => exact isDate_first hn Nat.one_pos (Nat.le_add_left 1 11)
  | month hn hlow hhigh => exact isDate_first hn hlow hhigh
  | day _ hreal => exact hreal

theorem IsSound.firstDay?_eq (h : d.IsSound) : d.firstDay? =
    if d.year = 0 then none
    else some ⟨d.year, d.month.getD 1, d.day.getD 1, h.isDate_firstDay⟩ := by
  rw [firstDay?, isSet, Calendar.Date.ofYmd?, dif_pos h.isDate_firstDay]
  by_cases hyear : d.year = 0
  · simp [hyear]
  · simp [hyear]

/-! ## Showing a date -/

theorem IsSound.spells_display (h : d.IsSound) : Spells d.display.toList d := by
  have hyear : ∀ {n : Nat}, n < 10000 → IsDigits 4 (Text.padded 4 n) n :=
    fun hn => Text.isDigits_padded (by decide) hn
  have hpadded : ∀ n : Nat, Text.paddedInt 4 n = Text.padded 4 n := fun _ => rfl
  have hpart : ∀ {m : Nat}, m ≤ 31 → IsDigits 2 (Text.padded 2 m) m :=
    fun hm => Text.isDigits_padded (by decide) (Nat.lt_of_le_of_lt hm (by decide))
  have hmonth : ∀ {m : Nat}, 1 ≤ m → m ≤ 12 → IsMonth (Text.padded 2 m) m := by
    intro m hlow hhigh
    have hm := hpart (hhigh.trans (by decide))
    exact .number hm.toIsNumeral (Nat.le_of_eq hm.length_eq) hlow hhigh
  cases h with
  | year hn => simpa [display, hpadded] using Spells.year (hyear hn)
  | month hn hlow hhigh =>
      simpa [display, hpadded] using Spells.month (hyear hn) (hmonth hlow hhigh)
  | day hn hreal =>
      obtain ⟨hlow, hhigh, -, hk⟩ := Calendar.bounds_of_isDate hreal
      have hday := hpart hk
      have := Spells.day (hyear hn) (hmonth hlow hhigh) hday.toIsNumeral
        (Nat.le_of_eq hday.length_eq) hreal
      simpa [display, hpadded] using this

/-! ## What is read -/

/-- A date that is read has a year of at most four digits, a day only with a month, and no month
and no day that do not exist. Unless its year is 0 it has a first day, which is the one that its
parts say, with the first month and the first day in place of what is missing. The text that shows
it is read as the same date. -/
theorem parse?_sound {s : String} {d : PartialDate} (h : parse? s = some d) :
    (0 ≤ d.year ∧ d.year ≤ 9999) ∧
    (d.day.isSome → d.month.isSome) ∧
    (∀ m, d.month = some m → 1 ≤ m ∧ m ≤ 12) ∧
    (∀ m k, d.month = some m → d.day = some k → Calendar.isDate d.year m k = true) ∧
    (d.firstDay?.isSome ↔ d.year ≠ 0) ∧
    (∀ day, d.firstDay? = some day →
      day.year = d.year ∧ day.month = d.month.getD 1 ∧ day.day = d.day.getD 1) ∧
    parse? d.display = some d := by
  have hsound := (parse?_eq_some_iff.mp h).isSound
  have hfirst := hsound.firstDay?_eq
  have hagain : parse? d.display = some d :=
    parse?_eq_some_iff.mpr hsound.spells_display.trim
  refine ⟨?_, ?_, ?_, ?_, ?_, ?_, hagain⟩
  · cases hsound <;> simp <;> omega
  · cases hsound <;> simp
  · intro m hm
    cases hsound with
    | year _ => cases hm
    | month _ hlow hhigh =>
        cases hm
        exact ⟨hlow, hhigh⟩
    | day _ hreal =>
        cases hm
        have := Calendar.bounds_of_isDate hreal
        exact ⟨this.1, this.2.1⟩
  · intro m k hm hk
    cases hsound with
    | year _ => cases hm
    | month _ _ _ => cases hk
    | day _ hreal =>
        cases hm
        cases hk
        exact hreal
  · rw [hfirst]
    split <;> simp [*]
  · intro day hday
    rw [hfirst] at hday
    split at hday
    · cases hday
    · cases hday
      exact ⟨rfl, rfl, rfl⟩

/-- The leap day of a year, written with a name and shown in digits. -/
theorem parse?_sound_leapDay :
    parse? "2008-feb-29" = some ⟨2008, some 2, some 29⟩ ∧
      Calendar.isDate 2008 2 29 = true ∧
      (firstDay? ⟨2008, some 2, some 29⟩).isSome = true ∧
      parse? (display ⟨2008, some 2, some 29⟩) = some ⟨2008, some 2, some 29⟩ := by
  have hyear : IsDigits 4 ['2', '0', '0', '8'] 2008 := ⟨Text.natural?_eq_some_iff.mp rfl, rfl⟩
  have hmonth : IsMonth ['f', 'e', 'b'] 2 := month?_eq_some_iff.mp rfl
  have hday : Text.IsNumeral ['2', '9'] 29 := Text.natural?_eq_some_iff.mp rfl
  have hspells : Spells "2008-feb-29".toList ⟨2008, some 2, some 29⟩ :=
    .day hyear hmonth hday (by decide) (by decide)
  have hread := parse?_eq_some_iff.mpr hspells.trim
  obtain ⟨-, -, -, hreal, hfirst, -, hagain⟩ := parse?_sound hread
  exact ⟨hread, hreal 2 29 rfl rfl, hfirst.mpr (by decide), hagain⟩

end PartialDate

end Holdings
