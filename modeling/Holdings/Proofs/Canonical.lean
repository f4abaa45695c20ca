import Holdings.Proofs.Identifiers
/-!
# One key for every spelling

A text is either a spelling of a serial number or it is not. In the first case its key is the
number in canonical form, in the second the trimmed text. The two cases do not meet: a canonical
form is a spelling of its own number, and trimming does not make a spelling of a text that is none.
So two texts have one key exactly if they spell one number, or if neither is a spelling and they
differ in outer blanks only (`Issn.normalize_eq_iff`).
-/

namespace Holdings

/-- Some digits, and after them one more or an `X`. -/
inductive Checked : Nat → List Char → Prop
  | check {c : Char} (h : c.isDigit = true ∨ c = 'X') : Checked 0 [c]
  | digit {c : Char} {k : Nat} {s : List Char} (hc : c.isDigit = true) (h : Checked k s) :
      Checked (k + 1) (c :: s)

theorem checked_iff {k : Nat} {s : List Char} :
    Checked k s ↔
      s.length = k + 1 ∧ (s.take k).all Char.isDigit = true ∧
        (s.drop k).all Issn.isCheck = true := by
  constructor
  · intro h
    induction h with
    | check h => simpa [Issn.isCheck] using h
    | digit hc h ih => simpa [hc] using ih
  · rintro ⟨hlength, hdigits, hcheck⟩
    induction k generalizing s with
    | zero =>
        obtain ⟨c, rfl⟩ := List.length_eq_one_iff.mp hlength
        exact .check (by simpa [Issn.isCheck] using hcheck)
    | succ k ih =>
        obtain ⟨c, s, rfl⟩ := List.exists_cons_of_length_eq_add_one hlength
        rw [List.take_succ_cons, List.all_cons, Bool.and_eq_true] at hdigits
        exact .digit hdigits.1 (ih (Nat.succ.inj hlength) hdigits.2 hcheck)

instance (k : Nat) (s : List Char) : Decidable (Checked k s) := decidable_of_iff' _ checked_iff

namespace Issn

/-- Eight characters, and the same with a hyphen in the middle. -/
inductive Hyphenated : List Char → List Char → Prop
  | between {first last : List Char} (hfirst : first.length = 4) (hlast : last.length = 4) :
      Hyphenated (first ++ last) (first ++ '-' :: last)

/-! ## Spellings -/

theorem isCompact_iff {s : List Char} : isCompact s = true ↔ Checked 7 s := by
  rw [checked_iff, isCompact, Bool.and_eq_true, Bool.and_eq_true, decide_eq_true_eq, and_assoc]

theorem parse?_isSome_iff {s : String} :
    (parse? s).isSome = true ↔ Checked 7 (squeeze s.toList) := by
  rw [← isCompact_iff, parse?]
  split <;> simp_all

theorem parse?_eq_some_iff {s : String} {i : Issn} :
    parse? s = some i ↔ squeeze s.toList = i.compact := by
  unfold parse?
  split
  · rw [Option.some.injEq, Issn.mk.injEq]
  · next h =>
    refine iff_of_false (Option.some_ne_none i).symm fun he => h ?_
    rw [he, i.wellFormed]

theorem hyphenated_canonical (i : Issn) : Hyphenated i.compact i.canonical := by
  have hlength : i.compact.length = 8 := by
    have hw := i.wellFormed
    simp only [isCompact, Bool.and_eq_true, decide_eq_true_eq] at hw
    exact hw.1.1
  have hfirst : (i.compact.take 4).length = 4 := by simp [hlength]
  have hlast : (i.compact.drop 4).length = 4 := by simp [hlength]
  have h := Hyphenated.between hfirst hlast
  rwa [List.take_append_drop] at h

/-- There is one place for the hyphen. -/
theorem Hyphenated.unique {n s t : List Char} (hs : Hyphenated n s) (ht : Hyphenated n t) :
    s = t := by
  cases hs with
  | @between first last hfirst hlast =>
    generalize hn : first ++ last = n at ht
    cases ht with
    | between hfirst' hlast' =>
      obtain ⟨rfl, rfl⟩ := List.append_inj hn (hfirst.trans hfirst'.symm)
      rfl

/-- What a spelling gives is its number with a hyphen in the middle. -/
theorem map_text_parse?_eq_some_iff {s t : String} :
    (parse? s).map text = some t ↔
      Checked 7 (squeeze s.toList) ∧ Hyphenated (squeeze s.toList) t.toList := by
  rw [← isCompact_iff, Option.map_eq_some_iff]
  constructor
  · rintro ⟨i, hi, rfl⟩
    rw [parse?_eq_some_iff.mp hi, text, String.toList_ofList]
    exact ⟨i.wellFormed, hyphenated_canonical i⟩
  · rintro ⟨hn, ht⟩
    have htext : (Issn.mk _ hn).canonical = t.toList := (hyphenated_canonical ⟨_, hn⟩).unique ht
    exact ⟨⟨_, hn⟩, parse?_eq_some_iff.mpr rfl, by rw [text, htext, String.ofList_toList]⟩

/-- The characters of a number in canonical form are those of the number. -/
theorem squeeze_hyphenated {n s : List Char} (hn : Checked 7 n) (h : Hyphenated n s) :
    squeeze s = n := by
  have hs := (hyphenated_canonical ⟨n, isCompact_iff.mpr hn⟩).unique h
  rw [← hs, squeeze_canonical]

/-- Two texts have one key if they spell one number, or if neither is a spelling and trimming
makes them equal. A spelling and a text that is none never have one key: the key of the former can
be parsed, and that of the latter can not. -/
theorem normalize_eq_iff {s t : String} :
    normalize s = normalize t ↔
      ((parse? s).isSome ∧ (parse? t).isSome ∧ squeeze s.toList = squeeze t.toList) ∨
        (parse? s = none ∧ parse? t = none ∧ Text.trimmed s = Text.trimmed t) := by
  have hself : ∀ s, parse? (normalize s) = parse? s := by
    intro s
    cases hs : parse? s with
    | none => rw [normalize, hs, parse?_trimmed, hs]
    | some i => rw [normalize, hs, parse?_text]
  constructor
  · intro h
    have hparse : parse? s = parse? t := by rw [← hself s, h, hself t]
    cases ht : parse? t with
    | none =>
        have hs := hparse.trans ht
        rw [normalize, normalize, hs, ht] at h
        exact .inr ⟨hs, rfl, h⟩
    | some i =>
        have hs := hparse.trans ht
        refine .inl ⟨by rw [hs]; rfl, rfl, ?_⟩
        rw [parse?_eq_some_iff.mp hs, parse?_eq_some_iff.mp ht]
  · rintro (⟨hs, -, h⟩ | ⟨hs, ht, h⟩)
    · obtain ⟨i, hi⟩ := Option.isSome_iff_exists.mp hs
      have ht : parse? t = some i := parse?_eq_some_iff.mpr (h ▸ parse?_eq_some_iff.mp hi)
      rw [normalize, normalize, hi, ht]
    · rw [normalize, normalize, hs, ht, h]

/-- The key of a text. Spellings of serial numbers are the texts that hold the characters of one
besides hyphens and blanks, with small letters for capitals, and what they give is the number in
canonical form; canonical forms are the spellings that give themselves. Bringing to the key once is
enough, and texts have one key if they spell one number, or else are equal when trimmed. -/
theorem keys_canonical :
    (∀ s : String, (parse? s).isSome ↔ Checked 7 (squeeze s.toList)) ∧
    (∀ s t : String, (parse? s).map text = some t ↔
      Checked 7 (squeeze s.toList) ∧ Hyphenated (squeeze s.toList) t.toList) ∧
    (∀ s : String, normalize (normalize s) = normalize s) ∧
    (∀ t : String, (parse? t).map text = some t ↔ ∃ n, Checked 7 n ∧ Hyphenated n t.toList) ∧
    ∀ s t : String, normalize s = normalize t ↔
      ((parse? s).isSome ∧ (parse? t).isSome ∧ squeeze s.toList = squeeze t.toList) ∨
        (parse? s = none ∧ parse? t = none ∧ Text.trimmed s = Text.trimmed t) := by
  refine ⟨fun s => parse?_isSome_iff, fun s t => map_text_parse?_eq_some_iff, normalize_normalize,
    fun t => ⟨fun h => ⟨_, map_text_parse?_eq_some_iff.mp h⟩, ?_⟩, fun s t => normalize_eq_iff⟩
  rintro ⟨n, hn, ht⟩
  have hsqueeze := squeeze_hyphenated hn ht
  exact map_text_parse?_eq_some_iff.mpr ⟨hsqueeze.symm ▸ hn, hsqueeze.symm ▸ ht⟩

end Issn

end Holdings
