import Holdings.Proofs.Notations
import Holdings.Proofs.Values
import Holdings.Signature
/-!
# The number that a volume carries

A volume is free text, and so is an issue. There are two ways in which they carry a number. If the
text without its outer blanks is a numeral, perhaps with a sign, it is the number of this numeral
(`Text.IsSigned.integer?_eq`, `Text.exists_isSigned_of_integer?`). Any other text carries the number
of its first run of digits, and blanks around a text do not change which run this is
(`firstDigits_trim`). Either number counts only if it fits into 64 bits, and nothing that comes
later in the text is tried in its place.

The ways overlap in a numeral with a sign: its digits are a first run too (`FirstRun.of_isSigned`),
and where its own number does not fit, theirs is asked for.
-/

namespace Holdings

namespace Text

variable {s : List Char} {n : Nat} {z : Int}

/-! ## Numerals with a sign -/

/-- A numeral, with a sign in front or without one: the number of its digits, and its own. -/
inductive IsSigned : List Char → Nat → Int → Prop
  | bare {s : List Char} {n : Nat} (h : IsNumeral s n) : IsSigned s n n
  | plus {s : List Char} {n : Nat} (h : IsNumeral s n) : IsSigned ('+' :: s) n n
  | minus {s : List Char} {n : Nat} (h : IsNumeral s n) : IsSigned ('-' :: s) n (-n)

/-- Digits are no sign. -/
theorem IsNumeral.integer?_eq (h : IsNumeral s n) : integer? s = some (n : Int) := by
  obtain ⟨c, digits, rfl, hc⟩ := h.exists_cons
  have hplus : c ≠ '+' := by
    rintro rfl
    cases hc
  have hminus : c ≠ '-' := by
    rintro rfl
    cases hc
  rw [integer?.eq_3 _ (by simp [hplus]) (by simp [hminus]), natural?_eq_some_iff.mpr h]
  rfl

theorem IsSigned.integer?_eq (h : IsSigned s n z) : integer? s = some z := by
  cases h with
  | bare h => exact h.integer?_eq
  | plus h =>
      rw [integer?_plus, natural?_eq_some_iff.mpr h]
      rfl
  | minus h =>
      rw [integer?_minus, natural?_eq_some_iff.mpr h]
      rfl

theorem exists_isSigned_of_integer? (h : integer? s = some z) : ∃ n, IsSigned s n z := by
  unfold integer? at h
  split at h
  · obtain ⟨n, hn, rfl⟩ := Option.map_eq_some_iff.mp h
    exact ⟨n, .plus (natural?_eq_some_iff.mp hn)⟩
  · next s =>
    obtain ⟨n, hn, rfl⟩ := Option.map_eq_some_iff.mp ((integer?_minus s).symm.trans h)
    exact ⟨n, .minus (natural?_eq_some_iff.mp hn)⟩
  · obtain ⟨n, hn, rfl⟩ := Option.map_eq_some_iff.mp h
    exact ⟨n, .bare (natural?_eq_some_iff.mp hn)⟩

theorem IsSigned.int64?_eq (h : IsSigned s n z) :
    int64? s = if -2 ^ 63 ≤ z ∧ z < 2 ^ 63 then some z else none := by
  have hfits : isInt64 z = true ↔ -2 ^ 63 ≤ z ∧ z < 2 ^ 63 := by
    rw [isInt64_iff]
    omega
  rw [int64?, h.integer?_eq, Option.filter_some]
  simp only [hfits]

theorem IsNumeral.int64?_eq (h : IsNumeral s n) :
    int64? s = if (n : Int) < 2 ^ 63 then some (n : Int) else none := by
  have hlow : -2 ^ 63 ≤ (n : Int) := by omega
  simp only [(IsSigned.bare h).int64?_eq, hlow, true_and]

/-- The decimal text of a number is a numeral of it. -/
theorem isSigned_toString (z : Int) : IsSigned (toString z).toList z.natAbs z := by
  have hdigits := isNumeral_toDigits z.natAbs
  rw [Json.toList_toString]
  by_cases hneg : z < 0
  · have h := IsSigned.minus hdigits
    rw [Int.ofNat_natAbs_of_nonpos hneg.le, Int.neg_neg] at h
    rwa [decide_eq_true hneg, if_pos rfl]
  · have h := IsSigned.bare hdigits
    rw [Int.natAbs_of_nonneg (not_lt.mp hneg)] at h
    rwa [decide_eq_false hneg, if_neg Bool.false_ne_true]

theorem IsSigned.free (h : IsSigned s n z) : ∀ c ∈ s, isBlank c = false := by
  cases h with
  | bare h => exact h.free
  | plus h => exact List.forall_mem_cons.mpr ⟨rfl, h.free⟩
  | minus h => exact List.forall_mem_cons.mpr ⟨rfl, h.free⟩

/-- A text is what trimming leaves of it, with blanks on both sides. -/
theorem exists_trim_append (s : List Char) :
    ∃ lead tail, s = lead ++ (trim s ++ tail) ∧ (∀ c ∈ lead, isBlank c = true) ∧
      ∀ c ∈ tail, isBlank c = true := by
  have hend : trimStart s =
      trim s ++ ((trimStart s).reverse.takeWhile isBlank).reverse := by
    conv => lhs; rw [← List.reverse_reverse (trimStart s),
      ← List.takeWhile_append_dropWhile (p := isBlank) (l := (trimStart s).reverse),
      List.reverse_append]
    rfl
  refine ⟨s.takeWhile isBlank, ((trimStart s).reverse.takeWhile isBlank).reverse, ?_,
    fun c hc => List.mem_takeWhile_imp hc,
    fun c hc => List.mem_takeWhile_imp (List.mem_reverse.mp hc)⟩
  rw [← hend, trimStart, List.takeWhile_append_dropWhile]

theorem isDigit_of_isBlank {c : Char} (h : isBlank c = true) : c.isDigit = false := by
  rw [Bool.eq_false_iff]
  intro hd
  rw [(of_isAlphanum (isAlphanum_of_isDigit hd)).1] at h
  cases h

end Text

open Text (IsNumeral IsSigned)

/-! ## The first run of digits -/

section

variable {s : List Char} {n : Nat}

/-- The number of the first run of digits in a text: there is no digit in front of the run, and the
next character behind it is none. -/
inductive FirstRun : List Char → Nat → Prop
  | cut {before run after : List Char} {n : Nat} (hbefore : ∀ c ∈ before, c.isDigit = false)
      (hrun : IsNumeral run n) (hafter : ∀ c, after.head? = some c → c.isDigit = false) :
      FirstRun (before ++ (run ++ after)) n

/-- Where there is a digit, there is a first run. -/
theorem exists_firstRun {c : Char} (hc : c ∈ s) (hdigit : c.isDigit = true) :
    ∃ n, FirstRun s n := by
  induction s with
  | nil => exact absurd hc List.not_mem_nil
  | cons d s ih =>
      by_cases hd : d.isDigit = true
      · have hrun : IsNumeral ((d :: s).takeWhile Char.isDigit) _ :=
          ⟨by simp [hd], fun c hc => List.mem_takeWhile_imp hc, rfl⟩
        have hafter : ∀ c, ((d :: s).dropWhile Char.isDigit).head? = some c →
            c.isDigit = false := by
          intro c hc
          have hnot := List.head?_dropWhile_not Char.isDigit (d :: s)
          rw [hc] at hnot
          simpa using hnot
        have h := FirstRun.cut (List.forall_mem_nil _) hrun hafter
        rw [List.takeWhile_append_dropWhile] at h
        exact ⟨_, h⟩
      · have hmem : c ∈ s := (List.mem_cons.mp hc).resolve_left fun he => hd (he ▸ hdigit)
        obtain ⟨n, h⟩ := ih hmem
        cases h with
        | @cut before _ _ _ hbefore hrun hafter =>
          have hbefore' : ∀ c ∈ d :: before, c.isDigit = false :=
            List.forall_mem_cons.mpr ⟨Bool.eq_false_iff.mpr hd, hbefore⟩
          exact ⟨n, .cut hbefore' hrun hafter⟩

theorem FirstRun.firstDigits (h : FirstRun s n) : IsNumeral (firstDigits s) n := by
  cases h with
  | @cut before run after _ hbefore hrun hafter =>
    have hskip : (before ++ (run ++ after)).dropWhile (fun c => !c.isDigit) = run ++ after := by
      obtain ⟨c, digits, rfl, hc⟩ := hrun.exists_cons
      refine dropWhile_append_stop (fun c hc => by rw [hbefore c hc]; rfl) fun d hd => ?_
      cases hd
      rw [hc]
      rfl
    rwa [Holdings.firstDigits, hskip, takeWhile_append_stop hrun.digits hafter]

theorem FirstRun.of_isSigned {z : Int} (h : IsSigned s n z) : FirstRun s n := by
  have hend : ∀ c, ([] : List Char).head? = some c → c.isDigit = false := by
    intro c hc
    cases hc
  have hsign {sign : Char} {run : List Char} (hsign : sign.isDigit = false)
      (hrun : IsNumeral run n) : FirstRun (sign :: run) n := by
    have h := FirstRun.cut (List.forall_mem_singleton.mpr hsign) hrun hend
    rwa [List.append_nil, List.singleton_append] at h
  cases h with
  | bare h =>
      have h := FirstRun.cut (List.forall_mem_nil _) h hend
      rwa [List.append_nil, List.nil_append] at h
  | plus h => exact hsign rfl h
  | minus h => exact hsign rfl h

/-- Characters around a text that are no digits do not change its first run. -/
theorem firstDigits_around {lead tail : List Char} (hlead : ∀ c ∈ lead, c.isDigit = false)
    (htail : ∀ c ∈ tail, c.isDigit = false) :
    firstDigits (lead ++ (s ++ tail)) = firstDigits s := by
  have hskip {t : List Char} (ht : ∀ c ∈ t, c.isDigit = false) :
      ∀ c ∈ t, (!c.isDigit) = true := by
    intro c hc
    rw [ht c hc]
    rfl
  have hnone : tail.takeWhile Char.isDigit = [] := by
    cases tail with
    | nil => rfl
    | cons c tail =>
        refine List.takeWhile_cons_of_neg ?_
        rw [htail c List.mem_cons_self]
        exact Bool.false_ne_true
  rw [firstDigits, firstDigits, List.dropWhile_append_of_pos (hskip hlead), List.dropWhile_append]
  split
  · next hempty =>
    rw [List.isEmpty_iff.mp hempty, List.dropWhile_eq_nil_iff.mpr (hskip htail)]
  · rw [List.takeWhile_append, hnone, List.append_nil]
    split
    · next hlength => exact ((List.takeWhile_prefix _).eq_of_length hlength).symm
    · rfl

theorem firstDigits_trim (s : List Char) : firstDigits (Text.trim s) = firstDigits s := by
  obtain ⟨lead, tail, hs, hlead, htail⟩ := Text.exists_trim_append s
  conv => rhs; rw [hs]
  exact (firstDigits_around (fun c hc => Text.isDigit_of_isBlank (hlead c hc))
    fun c hc => Text.isDigit_of_isBlank (htail c hc)).symm

end

/-! ## Volumes and issues -/

variable {s : String} {n : Nat}

theorem ordinal?_of_isSigned {z : Int} (h : IsSigned (Text.trim s.toList) n z) :
    ordinal? s =
      if -2 ^ 63 ≤ z ∧ z < 2 ^ 63 then some z
      else if (n : Int) < 2 ^ 63 then some (n : Int) else none := by
  simp only [ordinal?, h.int64?_eq, (FirstRun.of_isSigned h).firstDigits.int64?_eq]
  split_ifs <;> rfl

theorem ordinal?_of_firstRun (hno : ∀ m z, ¬ IsSigned (Text.trim s.toList) m z)
    (h : FirstRun s.toList n) :
    ordinal? s = if (n : Int) < 2 ^ 63 then some (n : Int) else none := by
  have hint : Text.integer? (Text.trim s.toList) = none := by
    rw [Option.eq_none_iff_forall_ne_some]
    intro z hz
    obtain ⟨m, hm⟩ := Text.exists_isSigned_of_integer? hz
    exact hno m z hm
  have hrun : IsNumeral (firstDigits (Text.trim s.toList)) n := by
    rw [firstDigits_trim]
    exact h.firstDigits
  simp only [ordinal?, Text.int64?, hint, Option.filter_none]
  exact hrun.int64?_eq

/-- The number that a text carries. The decimal text of a 64-bit number, with any blanks around it,
carries this number. A text that is no numeral when it is trimmed carries none without a digit in
it; with one it has a first run of digits, and carries the number of this run if that fits into 64
bits with a sign, and else none. A numeral carries its own number if that fits, otherwise that of
its digits if they fit without the sign, and else none. -/
theorem ordinal?_reads :
    (∀ z : Int, -2 ^ 63 ≤ z → z < 2 ^ 63 → ∀ lead tail : List Char,
      (∀ c ∈ lead, Text.isBlank c = true) → (∀ c ∈ tail, Text.isBlank c = true) →
      ordinal? (String.ofList (lead ++ (toString z).toList ++ tail)) = some z) ∧
    (∀ s : String, (∀ n z, ¬ IsSigned (Text.trim s.toList) n z) →
      ((∀ c ∈ s.toList, c.isDigit = false) → ordinal? s = none) ∧
      ((∃ c ∈ s.toList, c.isDigit = true) → ∃ n, FirstRun s.toList n) ∧
      ∀ n, FirstRun s.toList n →
        ordinal? s = if (n : Int) < 2 ^ 63 then some (n : Int) else none) ∧
    ∀ (s : String) (n : Nat) (z : Int), IsSigned (Text.trim s.toList) n z →
      ordinal? s =
        if -2 ^ 63 ≤ z ∧ z < 2 ^ 63 then some z
        else if (n : Int) < 2 ^ 63 then some (n : Int) else none := by
  refine ⟨?_, fun s hno => ⟨ordinal?_eq_none, ?_, fun n => ordinal?_of_firstRun hno⟩,
    fun s n z => ordinal?_of_isSigned⟩
  · intro z hlow hhigh lead tail hlead htail
    have hz := Text.isSigned_toString z
    have htrim : Text.trim (lead ++ (toString z).toList ++ tail) = (toString z).toList := by
      rw [Text.trim_blanks_around hlead htail, Text.trim_of_free hz.free]
    rw [← htrim, ← String.toList_ofList (l := lead ++ (toString z).toList ++ tail)] at hz
    rw [ordinal?_of_isSigned hz, if_pos ⟨hlow, hhigh⟩]
  · rintro ⟨c, hc, hdigit⟩
    exact exists_firstRun hc hdigit

/-- A first run that is too large, in front of one that is not. -/
def largeVolume : List Char :=
  "Vol. ".toList ++ ("9223372036854775808".toList ++ " (7)".toList)

theorem firstRun_largeVolume : FirstRun largeVolume 9223372036854775808 := by
  have hnumeral : IsNumeral "9223372036854775808".toList 9223372036854775808 :=
    Text.natural?_eq_some_iff.mp (by decide)
  have hbefore : ∀ c ∈ "Vol. ".toList, c.isDigit = false := by simp
  have hafter : ∀ c, " (7)".toList.head? = some c → c.isDigit = false := by
    intro c hc
    cases hc
    rfl
  exact .cut hbefore hnumeral hafter

/-- The least 64-bit number between blanks, a text whose first number is too large, and a numeral
that is just too large. -/
theorem ordinal?_reads_atTheLimits :
    ordinal? (String.ofList ([' '] ++ (toString (-9223372036854775808 : Int)).toList ++ ['\t'])) =
      some (-9223372036854775808) ∧
    (∀ n z, ¬ IsSigned (Text.trim (String.ofList largeVolume).toList) n z) ∧
    FirstRun (String.ofList largeVolume).toList 9223372036854775808 ∧
    ordinal? (String.ofList largeVolume) = none ∧
    IsSigned (Text.trim "+09223372036854775808".toList) 9223372036854775808 9223372036854775808 ∧
    ordinal? "+09223372036854775808" = none := by
  have hlead : ∀ c ∈ [' '], Text.isBlank c = true := List.forall_mem_singleton.mpr rfl
  have htail : ∀ c ∈ ['\t'], Text.isBlank c = true := List.forall_mem_singleton.mpr rfl
  have hleast := ordinal?_reads.1 (-9223372036854775808) (by omega) (by omega) _ _ hlead htail
  have hno : ∀ n z, ¬ IsSigned (Text.trim (String.ofList largeVolume).toList) n z := by
    intro n z h
    have hnone : Text.integer? (Text.trim (String.ofList largeVolume).toList) = none := by
      decide +kernel
    rw [h.integer?_eq] at hnone
    cases hnone
  have hrun : FirstRun (String.ofList largeVolume).toList 9223372036854775808 := by
    rw [String.toList_ofList]
    exact firstRun_largeVolume
  have hsigned : IsSigned (Text.trim "+09223372036854775808".toList) 9223372036854775808
      9223372036854775808 :=
    .plus (Text.natural?_eq_some_iff.mp (by decide))
  have hlarge := (ordinal?_reads.2.1 _ hno).2.2 _ hrun
  have hover := ordinal?_reads.2.2 _ _ _ hsigned
  rw [if_neg (by omega)] at hlarge
  rw [if_neg (by omega), if_neg (by omega)] at hover
  exact ⟨hleast, hno, hrun, hlarge, hsigned, hover⟩

end Holdings
