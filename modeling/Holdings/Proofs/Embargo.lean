import Holdings.Format.Embargo
import Holdings.Proofs.Identifiers
/-!
# The notations of embargoes

What a column and a delay may say is a small grammar each: a mark in front, the digits of a number
of units, and the letter of the unit, as long as the units do not add up to more days than a span
can have. `InColumn` and `AsDelay` say it without the readers. The readers take just these texts
apart, each in one way, and what they refuse they quote as it was written.

The readers refuse a number that does not fit into 64 bits, a number whose days do not fit, and
days that do not make a span. The three limits come to one, in both directions
(`ofUnits?_eq_some_iff`, `guard_bind_back`, `int64?_bind_units`): what the first two refuse has more
days than the longest span.
-/

namespace Holdings

/-! ## Numerals -/

namespace Text

variable {s : List Char} {n : Nat}

/-- A text has no blanks around it if neither its first nor its last character is one. -/
theorem trim_of_ends {c u : Char} (hc : isBlank c = false) (hu : isBlank u = false)
    (s : List Char) : trim (c :: (s ++ [u])) = c :: (s ++ [u]) := by
  have hstart : trimStart (c :: (s ++ [u])) = c :: (s ++ [u]) :=
    trimStart_eq_self_iff.mpr (by simp [hc])
  have hend : trimStart (c :: (s ++ [u])).reverse = (c :: (s ++ [u])).reverse :=
    trimStart_eq_self_iff.mpr (by simp [hu])
  rw [trim, hstart, trimEnd, hend, List.reverse_reverse]

/-- The digits of a number, with or without zeros in front. -/
structure IsNumeral (s : List Char) (n : Nat) : Prop where
  ne_nil : s ≠ []
  digits : ∀ c ∈ s, c.isDigit = true
  value : Nat.ofDigitChars 10 s 0 = n

theorem natural?_eq_some_iff : natural? s = some n ↔ IsNumeral s n := by
  rw [natural?]
  constructor
  · intro h
    split at h
    · next hs => exact ⟨hs.1, List.all_eq_true.mp hs.2, Option.some.inj h⟩
    · cases h
  · intro h
    rw [if_pos ⟨h.ne_nil, List.all_eq_true.mpr h.digits⟩, h.value]

theorem isNumeral_toDigits (n : Nat) : IsNumeral (Nat.toDigits 10 n) n where
  ne_nil := Nat.toDigits_ne_nil
  digits := fun _ hc => Nat.isDigit_of_mem_toDigits (by decide) (by decide) hc
  value := Nat.ofDigitChars_ten_toDigits

theorem IsNumeral.map_toUpper (h : IsNumeral s n) : s.map Char.toUpper = s := by
  refine (List.map_congr_left fun c hc => toUpper_eq_self ?_).trans (List.map_id _)
  have := toNat_of_isDigit (h.digits c hc)
  omega

theorem integer?_minus (s : List Char) :
    integer? ('-' :: s) = (natural? s).map fun (n : Nat) => -(n : Int) := by
  rw [integer?]
  cases natural? s <;> rfl

theorem integer?_plus (s : List Char) : integer? ('+' :: s) = (natural? s).map Int.ofNat := rfl

end Text

/-! ## Units -/

namespace Grain

/-- The letter of a unit, the days that it stands for, and the grain in which it is compared. -/
inductive IsUnit : Char → Int → Grain → Prop
  | day : IsUnit 'D' 1 .day
  | month : IsUnit 'M' 30 .month
  | year : IsUnit 'Y' 365 .year

/-- The letter of a grain in all notations. -/
def letter : Grain → Char
  | .day => 'D'
  | .month => 'M'
  | .year => 'Y'

theorem isUnit_iff {u : Char} {k : Int} {g : Grain} : IsUnit u k g ↔ u = g.letter ∧ k = g.days := by
  constructor
  · intro h
    cases h <;> exact ⟨rfl, rfl⟩
  · rintro ⟨rfl, rfl⟩
    cases g with
    | day => exact .day
    | month => exact .month
    | year => exact .year

theorem ofLetter?_eq_some_iff {u : Char} {g : Grain} : ofLetter? u = some g ↔ u = g.letter := by
  constructor
  · intro h
    unfold ofLetter? at h
    split at h
    · next hu => cases h; exact hu
    · split at h
      · next hu => cases h; exact hu
      · split at h
        · next hu => cases h; exact hu
        · cases h
  · rintro rfl
    cases g <;> rfl

theorem isBlank_letter (g : Grain) : Text.isBlank g.letter = false := by
  cases g <;> rfl

theorem toUpper_letter (g : Grain) : g.letter.toUpper = g.letter := by
  cases g <;> rfl

end Grain

namespace Embargo

variable {s : String} {t digits : List Char} {n : Nat} {z : Int} {g : Grain} {r : Bool}
  {e : Embargo}

/-- The letter of a side in a column. -/
def sideLetter (disallowsEarlier : Bool) : Char := if disallowsEarlier then 'R' else 'P'

theorem side?_eq_some_iff {c : Char} : side? c = some r ↔ c = sideLetter r := by
  constructor
  · intro h
    unfold side? at h
    split at h
    · next hc => cases h; exact hc
    · split at h
      · next hc => cases h; exact hc
      · cases h
  · rintro rfl
    cases r <;> rfl

/-- The days of the longest span. -/
def longest : Int := 106751991167

theorem spanOfDays?_eq_some_iff {days seconds : Int} :
    spanOfDays? days = some seconds ↔
      (-longest ≤ days ∧ days ≤ longest) ∧ seconds = days * 86400 := by
  have hspan : (-longestMillis ≤ days * 86400000 ∧ days * 86400000 ≤ longestMillis) ↔
      (-longest ≤ days ∧ days ≤ longest) := by
    rw [longestMillis, longest]
    omega
  simp only [spanOfDays?, hspan]
  split
  · next h => simp [h, eq_comm]
  · next h => simp [h]

theorem isInt64_of_longest (h : -longest ≤ z ∧ z ≤ longest) : Text.isInt64 z = true := by
  rw [longest] at h
  rw [Text.isInt64_iff]
  omega

/-- A unit has a day at least. -/
theorem bounds_of_days (h : -longest ≤ z * g.days ∧ z * g.days ≤ longest) :
    -longest ≤ z ∧ z ≤ longest := by
  rw [longest] at h ⊢
  cases g <;> simp only [Grain.days] at h <;> omega

/-- Days that do not fit into 64 bits are more than those of the longest span. -/
theorem ofUnits?_eq_some_iff :
    ofUnits? z g r = some e ↔
      (-longest ≤ z * g.days ∧ z * g.days ≤ longest) ∧ e = ⟨z * g.days * 86400, r, g⟩ := by
  constructor
  · intro h
    obtain ⟨days, hdays, h⟩ := Option.bind_eq_some_iff.mp h
    obtain ⟨seconds, hspan, h⟩ := Option.bind_eq_some_iff.mp h
    obtain ⟨rfl, -⟩ := Option.guard_eq_some_iff.mp hdays
    obtain ⟨hlong, rfl⟩ := spanOfDays?_eq_some_iff.mp hspan
    exact ⟨hlong, (Option.some.inj h).symm⟩
  · rintro ⟨hlong, rfl⟩
    have hdays : Option.guard Text.isInt64 (z * g.days) = some (z * g.days) :=
      Option.guard_eq_some_iff.mpr ⟨rfl, isInt64_of_longest hlong⟩
    have hspan : spanOfDays? (z * g.days) = some (z * g.days * 86400) :=
      spanOfDays?_eq_some_iff.mpr ⟨hlong, rfl⟩
    simp only [ofUnits?, hdays, hspan, Option.bind_eq_bind, Option.bind_some]
    rfl

/-- A number of units that does not fit into 64 bits is more than the longest span, whatever the
unit and on whichever side. -/
theorem isInt64_of_ofUnits? (h : ofUnits? z g r = some e) :
    Text.isInt64 z = true ∧ Text.isInt64 (-z) = true := by
  have hbounds := bounds_of_days (ofUnits?_eq_some_iff.mp h).1
  exact ⟨isInt64_of_longest hbounds, isInt64_of_longest ⟨by omega, by omega⟩⟩

/-- Units that count back are refused no more often if their number has to fit into 64 bits. -/
theorem guard_bind_back :
    ((Option.guard Text.isInt64 z).bind fun k => ofUnits? (-k) g r) = ofUnits? (-z) g r := by
  refine Option.ext fun e => ?_
  simp only [Option.bind_eq_some_iff, Option.guard_eq_some_iff]
  constructor
  · rintro ⟨_, ⟨rfl, -⟩, h⟩
    exact h
  · intro h
    exact ⟨z, ⟨rfl, Int.neg_neg z ▸ (isInt64_of_ofUnits? h).2⟩, h⟩

/-- The same for units with a sign. -/
theorem int64?_bind_units :
    ((Text.int64? t).bind fun k => ofUnits? k g r) =
      (Text.integer? t).bind fun k => ofUnits? k g r := by
  refine Option.ext fun e => ?_
  simp only [Text.int64?, Option.bind_eq_some_iff, Option.filter_eq_some_iff]
  constructor
  · rintro ⟨k, ⟨hk, -⟩, h⟩
    exact ⟨k, hk, h⟩
  · rintro ⟨k, hk, h⟩
    exact ⟨k, ⟨hk, (isInt64_of_ofUnits? h).1⟩, h⟩

/-- The limit is the same on both sides. -/
theorem ofUnits?_of_natAbs (hz : z.natAbs = n) :
    ofUnits? z g r = some e ↔ n * g.days ≤ longest ∧ e = ⟨z * g.days * 86400, r, g⟩ := by
  rw [ofUnits?_eq_some_iff, longest]
  refine and_congr_left fun _ => ?_
  cases g <;> simp only [Grain.days] <;> omega

theorem ofUnits?_back :
    ofUnits? (-(n : Int)) g r = some e ↔
      n * g.days ≤ longest ∧ e = ⟨-(n * g.days) * 86400, r, g⟩ := by
  have habs : (-(n : Int)).natAbs = n := by omega
  rw [ofUnits?_of_natAbs habs, Int.neg_mul]

theorem ofUnits?_ahead :
    ofUnits? (n : Int) g r = some e ↔
      n * g.days ≤ longest ∧ e = ⟨n * g.days * 86400, r, g⟩ :=
  ofUnits?_of_natAbs (Int.natAbs_natCast n)

/-- As many days as 32 bits can count are fewer than those of the longest span. -/
theorem ofUnits?_days (h : n < UInt32.size) :
    ofUnits? (-(n : Int)) .day false = some (ofDaysWithheld n) := by
  have hsize : UInt32.size = 4294967296 := rfl
  refine ofUnits?_back.mpr ⟨?_, ?_⟩
  · rw [Grain.days, longest]
    omega
  · rw [ofDaysWithheld, Grain.days, Int.mul_one]

/-! ## Columns -/

/-- What a column says in capital letters: nothing, or a side, a number and the letter of its unit.
The number counts back from the present. -/
inductive InColumn : List Char → Embargo → Prop
  | nothing : InColumn [] absent
  | units {digits : List Char} {n : Nat} {u : Char} {k : Int} {g : Grain} {r : Bool} :
      Text.IsNumeral digits n → Grain.IsUnit u k g → n * k ≤ 106751991167 →
      InColumn (sideLetter r :: (digits ++ [u])) ⟨-(n * k) * 86400, r, g⟩

theorem ofColumn?_units (r : Bool) (digits : List Char) (g : Grain) :
    ofColumn? (sideLetter r :: (digits ++ [g.letter])) =
      (Text.natural? digits).bind fun n => ofUnits? (-(n : Int)) g r := by
  have hside : side? (sideLetter r) = some r := side?_eq_some_iff.mpr rfl
  have hgrain : Grain.ofLetter? g.letter = some g := Grain.ofLetter?_eq_some_iff.mpr rfl
  simp only [ofColumn?, hside, hgrain, List.getLast?_concat, List.dropLast_concat,
    Option.bind_eq_bind, Option.bind_some, guard_bind_back]

theorem ofColumn?_eq_some_iff : ofColumn? t = some e ↔ InColumn t e := by
  constructor
  · intro h
    cases t with
    | nil =>
        cases h
        exact .nothing
    | cons c rest =>
        obtain ⟨r, hside, hrest⟩ := Option.bind_eq_some_iff.mp h
        obtain ⟨g, hgrain, hrest⟩ := Option.bind_eq_some_iff.mp hrest
        obtain ⟨n, hn, hunits⟩ := Option.bind_eq_some_iff.mp hrest
        obtain ⟨u, hlast, hu⟩ := Option.bind_eq_some_iff.mp hgrain
        obtain ⟨hlong, rfl⟩ := ofUnits?_back.mp (guard_bind_back.symm.trans hunits)
        -- the letter is the last character, and the digits are all that stands before it
        obtain ⟨digits, rfl⟩ := List.getLast?_eq_some_iff.mp hlast
        rw [List.dropLast_concat, Text.natural?_eq_some_iff] at hn
        rw [side?_eq_some_iff.mp hside, Grain.ofLetter?_eq_some_iff.mp hu]
        exact .units hn (Grain.isUnit_iff.mpr ⟨rfl, rfl⟩) hlong
  · intro h
    cases h with
    | nothing => rfl
    | units hn hu hlong =>
        obtain ⟨rfl, rfl⟩ := Grain.isUnit_iff.mp hu
        rw [ofColumn?_units, Text.natural?_eq_some_iff.mpr hn, Option.bind_some]
        exact ofUnits?_back.mpr ⟨hlong, rfl⟩

theorem ofKbart?_eq_some_iff :
    ofKbart? s = some e ↔ InColumn ((Text.trim s.toList).map Char.toUpper) e :=
  ofColumn?_eq_some_iff

/-- A mark, digits and the letter of a unit. -/
def unitText (mark : Char) (digits : List Char) (g : Grain) : String :=
  String.ofList (mark :: (digits ++ [g.letter]))

theorem ofKbart?_unitText (r : Bool) (hcapital : digits.map Char.toUpper = digits) :
    ofKbart? (unitText (sideLetter r) digits g) =
      (Text.natural? digits).bind fun n => ofUnits? (-(n : Int)) g r := by
  have hblank : Text.isBlank (sideLetter r) = false := by cases r <;> rfl
  have hside : (sideLetter r).toUpper = sideLetter r := by cases r <;> rfl
  rw [ofKbart?, unitText, String.toList_ofList, Text.trim_of_ends hblank g.isBlank_letter,
    List.map_cons, List.map_append, List.map_singleton, hside, hcapital, g.toUpper_letter,
    ofColumn?_units]

/-! ## Delays -/

/-- What a delay says: nothing, or a sign, a number and the letter of months or years. -/
inductive AsDelay : List Char → Embargo → Prop
  | nothing : AsDelay [] absent
  | back {digits : List Char} {n : Nat} {u : Char} {k : Int} {g : Grain} :
      Text.IsNumeral digits n → Grain.IsUnit u k g → g ≠ .day → n * k ≤ 106751991167 →
      AsDelay ('-' :: (digits ++ [u])) ⟨-(n * k) * 86400, false, g⟩
  | ahead {digits : List Char} {n : Nat} {u : Char} {k : Int} {g : Grain} :
      Text.IsNumeral digits n → Grain.IsUnit u k g → g ≠ .day → n * k ≤ 106751991167 →
      AsDelay ('+' :: (digits ++ [u])) ⟨n * k * 86400, false, g⟩

theorem isSigned_iff {c : Char} : isSigned (c :: t) = true ↔ c = '+' ∨ c = '-' := by
  simp [isSigned]

/-- What a text with a sign and a letter says is up to the numeral between them. -/
theorem ofDelay?_of_trim {c : Char} (hc : c = '+' ∨ c = '-') (hg : g ≠ .day)
    (ht : Text.trim s.toList = c :: (digits ++ [g.letter])) :
    ofDelay? s = (Text.integer? (c :: digits)).bind fun z => ofUnits? z g false := by
  have hgrain : Grain.ofLetter? g.letter = some g := Grain.ofLetter?_eq_some_iff.mpr rfl
  have hconcat : c :: (digits ++ [g.letter]) = (c :: digits) ++ [g.letter] := rfl
  rw [ofDelay?, ht]
  dsimp only
  rw [if_neg (List.cons_ne_nil _ _), isSigned_iff.mpr hc, hconcat, List.getLast?_concat,
    List.dropLast_concat, Option.bind_some, hgrain]
  simp only [Option.bind_eq_bind, Option.bind_some, if_true, if_neg hg, int64?_bind_units]

/-- A signed number in front of the letter of months or years. -/
theorem asDelay_of_front {front : List Char} (hsigned : isSigned (front ++ [g.letter]) = true)
    (hz : Text.integer? front = some z) (hg : g ≠ .day) (hunits : ofUnits? z g false = some e) :
    AsDelay (front ++ [g.letter]) e := by
  have hu : Grain.IsUnit g.letter g.days g := Grain.isUnit_iff.mpr ⟨rfl, rfl⟩
  cases front with
  | nil => cases hz
  | cons c digits =>
      rcases isSigned_iff.mp hsigned with rfl | rfl
      · rw [Text.integer?_plus] at hz
        obtain ⟨n, hn, rfl⟩ := Option.map_eq_some_iff.mp hz
        obtain ⟨hlong, rfl⟩ := ofUnits?_ahead.mp hunits
        exact .ahead (Text.natural?_eq_some_iff.mp hn) hu hg hlong
      · rw [Text.integer?_minus] at hz
        obtain ⟨n, hn, rfl⟩ := Option.map_eq_some_iff.mp hz
        obtain ⟨hlong, rfl⟩ := ofUnits?_back.mp hunits
        exact .back (Text.natural?_eq_some_iff.mp hn) hu hg hlong

theorem ofDelay?_eq_some_iff : ofDelay? s = some e ↔ AsDelay (Text.trim s.toList) e := by
  constructor
  · intro h
    unfold ofDelay? at h
    generalize Text.trim s.toList = t at h ⊢
    dsimp only at h
    split at h
    · next ht =>
      cases h
      exact ht ▸ .nothing
    · obtain ⟨g, hgrain, hrest⟩ := Option.bind_eq_some_iff.mp h
      obtain ⟨u, hlast, hu⟩ := Option.bind_eq_some_iff.mp hgrain
      obtain ⟨front, rfl⟩ := List.getLast?_eq_some_iff.mp hlast
      rw [List.dropLast_concat] at hrest
      rw [Grain.ofLetter?_eq_some_iff.mp hu] at hrest ⊢
      split at hrest
      · next hsigned =>
        obtain ⟨z, hz, hunits⟩ := Option.bind_eq_some_iff.mp hrest
        split at hunits
        · cases hunits
        · next hg =>
          exact asDelay_of_front hsigned (Option.filter_eq_some_iff.mp hz).1 hg hunits
      · cases hrest
  · intro h
    generalize ht : Text.trim s.toList = t at h
    cases h with
    | nothing =>
        rw [ofDelay?, ht]
        rfl
    | back hn hu hg hlong =>
        obtain ⟨rfl, rfl⟩ := Grain.isUnit_iff.mp hu
        rw [ofDelay?_of_trim (.inr rfl) hg ht, Text.integer?_minus,
          Text.natural?_eq_some_iff.mpr hn]
        exact ofUnits?_back.mpr ⟨hlong, rfl⟩
    | ahead hn hu hg hlong =>
        obtain ⟨rfl, rfl⟩ := Grain.isUnit_iff.mp hu
        rw [ofDelay?_of_trim (.inl rfl) hg ht, Text.integer?_plus,
          Text.natural?_eq_some_iff.mpr hn]
        exact ofUnits?_ahead.mpr ⟨hlong, rfl⟩

theorem ofDelay?_unitText (hg : g ≠ .day) :
    ofDelay? (unitText '-' digits g) =
      (Text.natural? digits).bind fun n => ofUnits? (-(n : Int)) g false := by
  have ht : Text.trim (unitText '-' digits g).toList = '-' :: (digits ++ [g.letter]) := by
    rw [unitText, String.toList_ofList, Text.trim_of_ends rfl g.isBlank_letter]
  rw [ofDelay?_of_trim (.inr rfl) hg ht, Text.integer?_minus, Option.bind_map]
  rfl

/-! ## What is read, and what is quoted -/

/-- A reader that knows exactly the embargoes of a grammar is at fault for the texts without one. -/
theorem orQuoted_eq_error_iff_of_grammar {o : Option Embargo} {grammar : Embargo → Prop}
    (h : ∀ e, o = some e ↔ grammar e) {f : RecordFault} :
    orQuoted s o = .error f ↔ f = .invalidEmbargo s ∧ ∀ e, ¬ grammar e := by
  rw [orQuoted_eq_error_iff, Option.eq_none_iff_forall_ne_some, and_comm]
  exact and_congr_right fun _ => forall_congr' fun e => not_congr (h e)

theorem readKbart_unitText (hn : Text.IsNumeral digits n) :
    readKbart (unitText (sideLetter r) digits g) = .ok e ↔
      n * g.days ≤ longest ∧ e = ⟨-(n * g.days) * 86400, r, g⟩ := by
  rw [readKbart, orQuoted_eq_ok_iff, ofKbart?_unitText r hn.map_toUpper,
    Text.natural?_eq_some_iff.mpr hn]
  exact ofUnits?_back

theorem readDelay_unitText (hn : Text.IsNumeral digits n) (hg : g ≠ .day) :
    readDelay (unitText '-' digits g) = .ok e ↔
      n * g.days ≤ longest ∧ e = ⟨-(n * g.days) * 86400, false, g⟩ := by
  rw [readDelay, orQuoted_eq_ok_iff, ofDelay?_unitText hg, Text.natural?_eq_some_iff.mpr hn]
  exact ofUnits?_back

theorem readKbart_days (hn : Text.IsNumeral digits n) (h : n < UInt32.size) :
    readKbart (unitText 'P' digits .day) = .ok (ofDaysWithheld n) :=
  (readKbart_unitText (r := false) hn).mpr (ofUnits?_back.mp (ofUnits?_days h))

/-- The readers of columns and delays read what their grammars have, and quote any other text.
Where both notations can say a span back from the present they read the same, and so does a number
of days not available. -/
theorem embargo_grammars :
    (∀ s e, readKbart s = .ok e ↔ InColumn ((Text.trim s.toList).map Char.toUpper) e) ∧
    (∀ s f, readKbart s = .error f ↔ f = .invalidEmbargo s ∧
      ∀ e, ¬ InColumn ((Text.trim s.toList).map Char.toUpper) e) ∧
    (∀ s e, readDelay s = .ok e ↔ AsDelay (Text.trim s.toList) e) ∧
    (∀ s f, readDelay s = .error f ↔ f = .invalidEmbargo s ∧
      ∀ e, ¬ AsDelay (Text.trim s.toList) e) ∧
    (∀ digits n g, Text.IsNumeral digits n → g ≠ .day → ∀ e,
      readKbart (unitText 'P' digits g) = .ok e ↔ readDelay (unitText '-' digits g) = .ok e) ∧
    ∀ digits n, Text.IsNumeral digits n → n < UInt32.size →
      readKbart (unitText 'P' digits .day) = .ok (ofDaysWithheld n) := by
  refine ⟨?_, ?_, ?_, ?_, ?_, ?_⟩
  · intro s e
    exact orQuoted_eq_ok_iff.trans ofKbart?_eq_some_iff
  · intro s f
    exact orQuoted_eq_error_iff_of_grammar fun _ => ofKbart?_eq_some_iff
  · intro s e
    exact orQuoted_eq_ok_iff.trans ofDelay?_eq_some_iff
  · intro s f
    exact orQuoted_eq_error_iff_of_grammar fun _ => ofDelay?_eq_some_iff
  · intro digits n g hn hg e
    exact (readKbart_unitText (r := false) hn).trans (readDelay_unitText hn hg).symm
  · intro digits n hn h
    exact readKbart_days hn h

/-- Twelve months back, and twelve days, with a zero in front. -/
theorem embargo_grammars_twelve :
    Text.IsNumeral ['0', '1', '2'] 12 ∧ Grain.month ≠ .day ∧ 12 < UInt32.size ∧
      (readKbart (unitText 'P' ['0', '1', '2'] .month) = .ok ⟨-31104000, false, .month⟩ ↔
        readDelay (unitText '-' ['0', '1', '2'] .month) = .ok ⟨-31104000, false, .month⟩) ∧
      readKbart (unitText 'P' ['0', '1', '2'] .day) = .ok (ofDaysWithheld 12) := by
  have hn : Text.IsNumeral ['0', '1', '2'] 12 := Text.natural?_eq_some_iff.mp rfl
  have hg : Grain.month ≠ .day := nofun
  have hsize : 12 < UInt32.size := by decide
  obtain ⟨-, -, -, -, hmonths, hdays⟩ := embargo_grammars
  exact ⟨hn, hg, hsize, hmonths _ _ _ hn hg _, hdays _ _ hn hsize⟩

end Embargo

end Holdings
