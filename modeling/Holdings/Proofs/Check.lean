import Mathlib.Data.Nat.ModEq
import Mathlib.Data.Nat.Prime.Basic
import Mathlib.Tactic.NormNum.Prime
import Holdings.Proofs.Canonical
/-!
# What the check character is good for

A serial number has the right check character exactly if the sum of its eight characters, each
weighted by its place from the end, is a multiple of eleven (`Issn.hasValidCheck_iff`). Eleven is a
prime, the weights go from eight down to one, and a character is worth ten at most. So one character
that is replaced changes the sum by a product of two numbers below eleven, and two that change places
change it by the product of the distance of their places and the difference of their values: neither
is a multiple of eleven (`Issn.check_detects`). For the same reason there is one check character for
any seven digits.
-/

namespace Holdings

namespace Issn

/-- The text is accepted as a serial number, and its check character is right. -/
def Checks (s : String) : Prop := ∃ i, parse? s = some i ∧ i.hasValidCheck = true

/-- A text and the same with another digit or `X` in the place of one character other than a
hyphen. -/
inductive Replaced : List Char → List Char → Prop
  | at (before after : List Char) {c d : Char} (hc : c ≠ '-') (hd : isCheck d = true)
      (hne : c ≠ d) : Replaced (before ++ c :: after) (before ++ d :: after)

/-- A text and the same with two different characters other than a hyphen in each other's place. -/
inductive Swapped : List Char → List Char → Prop
  | at (before between after : List Char) {c d : Char} (hc : c ≠ '-') (hd : d ≠ '-')
      (hne : c ≠ d) :
      Swapped (before ++ c :: (between ++ d :: after)) (before ++ d :: (between ++ c :: after))

/-! ## Values -/

theorem isCheck_iff {c : Char} : isCheck c = true ↔ c.isDigit = true ∨ c = 'X' := by
  rw [isCheck, Bool.or_eq_true, decide_eq_true_eq]

theorem checkValue_of_isDigit {c : Char} (h : c.isDigit = true) :
    checkValue c + 48 = c.toNat ∧ checkValue c < 10 := by
  have hx : c ≠ 'X' := by
    rintro rfl
    cases h
  have hzero : '0'.toNat = 48 := rfl
  have hc := toNat_of_isDigit h
  rw [checkValue, if_neg hx]
  omega

theorem checkValue_lt {c : Char} (h : isCheck c = true) : checkValue c < 11 := by
  rcases isCheck_iff.mp h with h | rfl
  · exact Nat.lt_succ_of_lt (checkValue_of_isDigit h).2
  · decide

/-- The eleven characters have different values. -/
theorem checkValue_inj {c d : Char} (hc : isCheck c = true) (hd : isCheck d = true)
    (h : checkValue c = checkValue d) : c = d := by
  have hten : checkValue 'X' = 10 := rfl
  rcases isCheck_iff.mp hc with hc | rfl <;> rcases isCheck_iff.mp hd with hd | rfl
  · have := checkValue_of_isDigit hc
    have := checkValue_of_isDigit hd
    exact Char.toNat_inj.mp (by omega)
  · have := checkValue_of_isDigit hc
    omega
  · have := checkValue_of_isDigit hd
    omega
  · rfl

/-- Every remainder has its character. -/
theorem exists_checkValue_eq {v : Nat} (h : v < 11) :
    ∃ c, isCheck c = true ∧ checkValue c = v :=
  match v with
  | 0 => ⟨'0', rfl, rfl⟩
  | 1 => ⟨'1', rfl, rfl⟩
  | 2 => ⟨'2', rfl, rfl⟩
  | 3 => ⟨'3', rfl, rfl⟩
  | 4 => ⟨'4', rfl, rfl⟩
  | 5 => ⟨'5', rfl, rfl⟩
  | 6 => ⟨'6', rfl, rfl⟩
  | 7 => ⟨'7', rfl, rfl⟩
  | 8 => ⟨'8', rfl, rfl⟩
  | 9 => ⟨'9', rfl, rfl⟩
  | 10 => ⟨'X', rfl, rfl⟩
  | v + 11 => absurd h (Nat.not_lt.mpr (Nat.le_add_left 11 v))

/-! ## The sum over all characters -/

/-- The sum of the values of characters, each weighted by the number of characters from it to the
end. -/
def total : List Char → Nat
  | [] => 0
  | c :: s => (s.length + 1) * checkValue c + total s

theorem total_concat {digits : List Char} (h : digits.length = 7) (c : Char) :
    total (digits ++ [c]) = weightedSum digits + checkValue c := by
  match digits, h with
  | [d₁, d₂, d₃, d₄, d₅, d₆, d₇], _ =>
    simp only [List.cons_append, List.nil_append, total, List.length_cons, List.length_nil,
      weightedSum, List.zip_cons_cons, List.zip_nil_left, List.foldr_cons, List.foldr_nil]
    omega

theorem expectedCheck_eq_iff {digits : List Char} {v : Nat} (h : v < 11) :
    v = expectedCheck digits ↔ (weightedSum digits + v) % 11 = 0 := by
  rw [expectedCheck]
  omega

theorem exists_compact (i : Issn) :
    ∃ digits c, i.compact = digits ++ [c] ∧ digits.length = 7 ∧ isCheck c = true := by
  have hw := i.wellFormed
  simp only [isCompact, Bool.and_eq_true, decide_eq_true_eq] at hw
  obtain ⟨⟨hlength, -⟩, hcheck⟩ := hw
  have hone : (i.compact.drop 7).length = 1 := by simp [hlength]
  obtain ⟨c, hc⟩ := List.length_eq_one_iff.mp hone
  refine ⟨i.compact.take 7, c, ?_, by simp [hlength], ?_⟩
  · rw [← hc, List.take_append_drop]
  · rw [hc] at hcheck
    simpa using hcheck

/-- The check character is right if the whole sum is a multiple of eleven. -/
theorem hasValidCheck_iff (i : Issn) : i.hasValidCheck = true ↔ total i.compact % 11 = 0 := by
  obtain ⟨digits, c, hi, hlength, hc⟩ := i.exists_compact
  rw [hasValidCheck, hi, List.drop_left' hlength, List.take_left' hlength, total_concat hlength,
    ← expectedCheck_eq_iff (checkValue_lt hc)]
  simp

theorem checks_ofList_iff {s : List Char} :
    Checks (String.ofList s) ↔ isCompact (squeeze s) = true ∧ total (squeeze s) % 11 = 0 := by
  constructor
  · rintro ⟨i, hi, hvalid⟩
    rw [parse?_eq_some_iff, String.toList_ofList] at hi
    rw [hi, ← hasValidCheck_iff]
    exact ⟨i.wellFormed, hvalid⟩
  · rintro ⟨hcompact, hsum⟩
    refine ⟨⟨_, hcompact⟩, ?_, (hasValidCheck_iff _).mpr hsum⟩
    rw [parse?_eq_some_iff, String.toList_ofList]

/-! ## Changes of the sum -/

/-- One character in another's place changes the sum by the difference of their values, weighted by
the place. -/
theorem total_replaced (before after : List Char) (c d : Char) :
    total (before ++ c :: after) + (after.length + 1) * checkValue d =
      total (before ++ d :: after) + (after.length + 1) * checkValue c := by
  induction before with
  | nil =>
      simp only [List.nil_append, total]
      omega
  | cons b before ih =>
      simp only [List.cons_append, total, List.length_append, List.length_cons]
      omega

/-- A factor below eleven that is not zero can be cancelled modulo eleven. -/
theorem eq_of_mul_mod {w v v' : Nat} (hpos : 0 < w) (hw : w < 11) (hv : v < 11) (hv' : v' < 11)
    (h : w * v % 11 = w * v' % 11) : v = v' := by
  have hprime : Nat.Prime 11 := by norm_num
  have hcoprime : Nat.Coprime 11 w := Nat.coprime_of_lt_prime hpos.ne' hw hprime
  exact (Nat.ModEq.cancel_left_of_coprime hcoprime h).eq_of_lt_of_lt hv hv'

/-- No other character in the same place makes the sum a multiple of eleven too. -/
theorem total_replaced_mod {before after : List Char} {c d : Char} (hlength : after.length < 10)
    (hc : isCheck c = true) (hd : isCheck d = true) (hne : c ≠ d)
    (h : total (before ++ c :: after) % 11 = 0) : total (before ++ d :: after) % 11 ≠ 0 := by
  intro h'
  have hchange := total_replaced before after c d
  have hproducts : (after.length + 1) * checkValue c % 11 =
      (after.length + 1) * checkValue d % 11 := by
    omega
  exact hne (checkValue_inj hc hd (eq_of_mul_mod (Nat.succ_pos _) (by omega) (checkValue_lt hc)
    (checkValue_lt hd) hproducts))

/-- Neither do two characters that change places. -/
theorem total_swapped_mod {before between after : List Char} {c d : Char}
    (hlength : between.length < 10) (hc : isCheck c = true) (hd : isCheck d = true) (hne : c ≠ d)
    (h : total (before ++ c :: (between ++ d :: after)) % 11 = 0) :
    total (before ++ d :: (between ++ c :: after)) % 11 ≠ 0 := by
  intro h'
  have hfirst := total_replaced before (between ++ d :: after) c d
  have hsecond := total_replaced (before ++ d :: between) after d c
  rw [List.append_assoc, List.append_assoc, List.cons_append, List.cons_append] at hsecond
  simp only [List.length_append, List.length_cons, Nat.add_mul] at hfirst
  simp only [Nat.add_mul] at hsecond
  -- the two weights differ by the distance of the places
  have hproducts : (between.length + 1) * checkValue c % 11 =
      (between.length + 1) * checkValue d % 11 := by
    rw [Nat.add_mul, Nat.add_mul]
    omega
  exact hne (checkValue_inj hc hd (eq_of_mul_mod (Nat.succ_pos _) (by omega) (checkValue_lt hc)
    (checkValue_lt hd) hproducts))

/-! ## Typing errors -/

theorem squeeze_append (s t : List Char) : squeeze (s ++ t) = squeeze s ++ squeeze t := by
  rw [squeeze_eq, squeeze_eq, squeeze_eq, List.filter_append, List.map_append]

/-- A digit or `X` counts, and it is a capital. -/
theorem squeeze_cons {c : Char} (h : isCheck c = true) (s : List Char) :
    squeeze (c :: s) = c :: squeeze s := by
  obtain ⟨hcounts, hupper⟩ := counts_of_check (isCheck_iff.mp h)
  rw [squeeze_eq, List.filter_cons_of_pos hcounts, List.map_cons, hupper, squeeze_eq]

/-- The characters of a canonical form are digits, `X` and the hyphen. -/
theorem isCheck_of_mem_canonical {i : Issn} {c : Char} (h : c ∈ i.canonical) (hc : c ≠ '-') :
    isCheck c = true := by
  refine isCheck_iff.mpr (mem_compact (i := i) ?_)
  rw [canonical, List.mem_append, List.mem_cons] at h
  rcases h with h | h | h
  · exact List.mem_of_mem_take h
  · exact absurd h hc
  · exact List.mem_of_mem_drop h

/-- Seven digits ask for one value. -/
theorem checks_concat_iff {digits : List Char} {c : Char} (hlength : digits.length = 7)
    (hdigits : ∀ d ∈ digits, d.isDigit = true) (hc : isCheck c = true) :
    Checks (String.ofList (digits ++ [c])) ↔ checkValue c = expectedCheck digits := by
  have hsqueeze : squeeze (digits ++ [c]) = digits ++ [c] := by
    have hchecks : ∀ d ∈ digits ++ [c], counts d = true ∧ d.toUpper = d := by
      intro d hd
      refine counts_of_check ?_
      rcases List.mem_append.mp hd with hd | hd
      · exact .inl (hdigits d hd)
      · rw [List.mem_singleton.mp hd]
        exact isCheck_iff.mp hc
    rw [squeeze_eq, List.filter_eq_self.mpr fun d hd => (hchecks d hd).1]
    exact (List.map_congr_left fun d hd => (hchecks d hd).2).trans (List.map_id _)
  have hcompact : isCompact (digits ++ [c]) = true := by
    rw [isCompact, List.take_left' hlength, List.drop_left' hlength]
    simpa [hlength, hc] using hdigits
  rw [checks_ofList_iff, hsqueeze, total_concat hlength, expectedCheck_eq_iff (checkValue_lt hc)]
  exact and_iff_right hcompact

theorem length_compact (i : Issn) : i.compact.length = 8 := by
  obtain ⟨digits, c, hi, hlength, -⟩ := i.exists_compact
  rw [hi, List.length_append, hlength]
  rfl

/-- The check character detects the usual typing errors. Where one of the eight characters of a
canonical form with the right check character is replaced by another digit or `X`, or two different
ones change places, wherever they stand, the text is no serial number, or its check character is
wrong. And of the eleven characters there is exactly one that is right for seven digits. -/
theorem check_detects :
    (∀ (s : String) (i : Issn), parse? s = some i → i.hasValidCheck = true →
      ∀ t, Replaced i.canonical t ∨ Swapped i.canonical t → ¬ Checks (String.ofList t)) ∧
    ∀ digits : List Char, digits.length = 7 → (∀ c ∈ digits, c.isDigit = true) →
      ∃! c, isCheck c = true ∧ Checks (String.ofList (digits ++ [c])) := by
  constructor
  · rintro s i - hvalid t ht hchecks
    have hsum := (hasValidCheck_iff i).mp hvalid
    have hlength := i.length_compact
    have hchar : ∀ c ∈ i.canonical, c ≠ '-' → isCheck c = true :=
      fun c => isCheck_of_mem_canonical
    rw [← squeeze_canonical i] at hsum hlength
    have hsum' := (checks_ofList_iff.mp hchecks).2
    generalize i.canonical = s' at ht hsum hlength hchar
    rcases ht with
      @⟨before, after, c, d, hc, hd, hne⟩ | @⟨before, between, after, c, d, hc, hd, hne⟩
    · have hcheck : isCheck c = true := hchar c (by simp) hc
      simp only [squeeze_append, squeeze_cons hcheck, squeeze_cons hd, List.length_append,
        List.length_cons] at hsum hsum' hlength
      exact total_replaced_mod (by omega) hcheck hd hne hsum hsum'
    · have hfirst : isCheck c = true := hchar c (by simp) hc
      have hsecond : isCheck d = true := hchar d (by simp) hd
      simp only [squeeze_append, squeeze_cons hfirst, squeeze_cons hsecond, List.length_append,
        List.length_cons] at hsum hsum' hlength
      exact total_swapped_mod (by omega) hfirst hsecond hne hsum hsum'
  · intro digits hlength hdigits
    have hlt : expectedCheck digits < 11 := Nat.mod_lt _ (by decide)
    obtain ⟨c, hc, hvalue⟩ := exists_checkValue_eq hlt
    refine ⟨c, ⟨hc, (checks_concat_iff hlength hdigits hc).mpr hvalue⟩, ?_⟩
    rintro d ⟨hd, hchecks⟩
    have hvalue' := (checks_concat_iff hlength hdigits hd).mp hchecks
    exact checkValue_inj hd hc (hvalue'.trans hvalue.symm)

/-- The number 2434-561X. -/
def checkedByX : Issn := ⟨"2434561X".toList, by decide⟩

/-- Written small and without the hyphen it is accepted, but not with a wrong digit, nor with two
digits that have changed places. -/
theorem check_detects_typing :
    parse? "2434561x" = some checkedByX ∧ checkedByX.hasValidCheck = true ∧
    Replaced checkedByX.canonical "2434-541X".toList ∧ ¬ Checks "2434-541X" ∧
    Swapped checkedByX.canonical "2454-361X".toList ∧ ¬ Checks "2454-361X" ∧
    ∃! c, isCheck c = true ∧ Checks (String.ofList ("2434561".toList ++ [c])) := by
  have hparse : parse? "2434561x" = some checkedByX := by decide
  have hvalid : checkedByX.hasValidCheck = true := by decide
  have hreplaced : Replaced checkedByX.canonical "2434-541X".toList :=
    .at "2434-5".toList "1X".toList (c := '6') (d := '4') (by decide) (by decide) (by decide)
  have hswapped : Swapped checkedByX.canonical "2454-361X".toList :=
    .at "24".toList "4-".toList "61X".toList (c := '3') (d := '5') (by decide) (by decide)
      (by decide)
  exact ⟨hparse, hvalid, hreplaced, check_detects.1 _ _ hparse hvalid _ (.inl hreplaced), hswapped,
    check_detects.1 _ _ hparse hvalid _ (.inr hswapped),
    check_detects.2 "2434561".toList rfl (List.all_eq_true.mp (by decide))⟩

end Issn

end Holdings
