import Holdings.Proofs.Check
/-!
# Serial numbers that stand in a text

The search goes through a text from left to right. It passes a character if no number begins there,
and where one begins it takes the number and goes on behind it. So every text can be cut into
numbers with gaps before them and a tail, such that no number begins in a gap, not even one that
would reach into the number behind it (`Issn.exists_leftmost`). However a text is cut in this way,
the numbers of the cut are those that are found (`Issn.findAll_written`).

A number begins with a digit. Gaps without digits are therefore always passed, and the numbers that
were put between them are those that are found, whatever letters, hyphens and other numbers they
stand next to.
-/

namespace Holdings

namespace Issn

/-! ## Where a number begins -/

/-- A number in canonical form begins the text. -/
def Leads (s : List Char) : Prop := ∃ i : Issn, i.canonical <+: s

/-- No number in canonical form stands in the text. -/
def Bare (s : List Char) : Prop := ∀ i : Issn, ¬ i.canonical <:+: s

/-- No number begins in the gap, where the rest comes after it. -/
def Passed (gap rest : List Char) : Prop :=
  ∀ s, s <:+ gap → s ≠ [] → ¬ Leads (s ++ rest)

theorem length_canonical (i : Issn) : i.canonical.length = 9 := by
  simp [canonical, i.length_compact]

theorem isCanonical_canonical (i : Issn) : isCanonical i.canonical = true := by
  have hw := i.wellFormed
  have hsplit : i.compact.take 7 = i.compact.take 4 ++ (i.compact.drop 4).take 3 :=
    List.take_add (i := 4) (j := 3)
  simp only [isCompact, hsplit, List.all_append, Bool.and_eq_true, decide_eq_true_eq] at hw
  obtain ⟨⟨hlength, hfirst, hlast⟩, hcheck⟩ := hw
  -- the hyphen moves the last four characters by one place
  have hfour : (i.compact.take 4).length = 4 := by simp [hlength]
  have htake : i.canonical.take 4 = i.compact.take 4 := List.take_left' hfour
  have hdrop : i.canonical.drop 4 = '-' :: i.compact.drop 4 := List.drop_left' hfour
  have hdrop' (k : Nat) : i.canonical.drop (4 + (k + 1)) = i.compact.drop (4 + k) := by
    rw [← List.drop_drop, hdrop, List.drop_succ_cons, List.drop_drop]
  simp [isCanonical, i.length_canonical, htake, hdrop, hdrop' 0, hdrop' 3, hfirst, hlast, hcheck]

theorem isCanonical_take_iff {s : List Char} : isCanonical (s.take 9) = true ↔ Leads s := by
  constructor
  · intro h
    obtain ⟨i, hi⟩ := exists_canonical_eq h
    exact ⟨i, hi ▸ List.take_prefix 9 s⟩
  · rintro ⟨i, rest, rfl⟩
    rw [List.take_left' i.length_canonical]
    exact i.isCanonical_canonical

/-- A number begins with a digit. -/
theorem Leads.isDigit {c : Char} {s : List Char} (h : Leads (c :: s)) : c.isDigit = true := by
  have hcanonical := isCanonical_take_iff.mpr h
  simp only [isCanonical, List.take_succ_cons, List.all_cons, Bool.and_eq_true] at hcanonical
  exact hcanonical.1.1.1.2.1

section

variable {gap rest : List Char}

theorem passed_nil (rest : List Char) : Passed [] rest :=
  fun _ hs hne => absurd (List.suffix_nil.mp hs) hne

theorem passed_cons_iff {c : Char} :
    Passed (c :: gap) rest ↔ ¬ Leads (c :: (gap ++ rest)) ∧ Passed gap rest := by
  constructor
  · intro h
    exact ⟨h _ List.suffix_rfl (List.cons_ne_nil c gap),
      fun s hs => h s (hs.trans (List.suffix_cons c gap))⟩
  · rintro ⟨hfirst, hgap⟩ s hs hne
    rcases List.suffix_cons_iff.mp hs with rfl | hs
    · exact hfirst
    · exact hgap s hs hne

/-- A number inside of the gap would begin there. -/
theorem Passed.bare (h : Passed gap rest) : Bare gap := by
  rintro i ⟨before, after, rfl⟩
  have hne : i.canonical ++ after ≠ [] := by
    intro hnil
    have hlength := i.length_canonical
    rw [(List.append_eq_nil_iff.mp hnil).1] at hlength
    cases hlength
  refine h (i.canonical ++ after) ⟨before, (List.append_assoc ..).symm⟩ hne ⟨i, ?_⟩
  rw [List.append_assoc]
  exact List.prefix_append _ _

theorem passed_of_no_digit (h : ∀ c ∈ gap, c.isDigit = false) (rest : List Char) :
    Passed gap rest := by
  induction gap with
  | nil => exact passed_nil rest
  | cons c gap ih =>
      obtain ⟨hc, hgap⟩ := List.forall_mem_cons.mp h
      refine passed_cons_iff.mpr ⟨fun hlead => ?_, ih hgap⟩
      rw [hlead.isDigit] at hc
      cases hc

end

/-! ## Cutting a text at its numbers -/

/-- A number in a text, and what stands between it and the number in front of it. -/
structure Piece where
  gap : List Char
  number : Issn

/-- The text that pieces make up, and what comes after the last number. -/
def written : List Piece → List Char → List Char
  | [], tail => tail
  | p :: ps, tail => p.gap ++ (p.number.canonical ++ written ps tail)

/-- The numbers of pieces in canonical form. -/
def numbers (ps : List Piece) : List (List Char) := ps.map fun p => p.number.canonical

/-- Each number is the first one that begins behind the number in front of it, and no number begins
behind the last one. -/
def Leftmost : List Piece → List Char → Prop
  | [], tail => Passed tail []
  | p :: ps, tail => Passed p.gap (p.number.canonical ++ written ps tail) ∧ Leftmost ps tail

/-- Neither in front of a number nor behind the last one is there another number. -/
theorem Leftmost.bare {ps : List Piece} {tail : List Char} (h : Leftmost ps tail) :
    (∀ p ∈ ps, Bare p.gap) ∧ Bare tail := by
  induction ps with
  | nil => exact ⟨List.forall_mem_nil _, Passed.bare h⟩
  | cons p ps ih =>
      obtain ⟨hps, htail⟩ := ih h.2
      exact ⟨List.forall_mem_cons.mpr ⟨h.1.bare, hps⟩, htail⟩

theorem leftmost_of_no_digit {ps : List Piece} {tail : List Char}
    (hps : ∀ p ∈ ps, ∀ c ∈ p.gap, c.isDigit = false) (htail : ∀ c ∈ tail, c.isDigit = false) :
    Leftmost ps tail := by
  induction ps with
  | nil => exact passed_of_no_digit htail []
  | cons p ps ih =>
      obtain ⟨hp, hps⟩ := List.forall_mem_cons.mp hps
      exact ⟨passed_of_no_digit hp _, ih hps⟩

/-! ## The search -/

theorem findAll_passed {gap rest : List Char} (h : Passed gap rest) :
    findAll (gap ++ rest) = findAll rest := by
  induction gap with
  | nil => rfl
  | cons c gap ih =>
      obtain ⟨hfirst, hgap⟩ := passed_cons_iff.mp h
      rw [List.cons_append, findAll, if_neg (mt isCanonical_take_iff.mp hfirst), ih hgap]

theorem findAll_canonical_append (i : Issn) (rest : List Char) :
    findAll (i.canonical ++ rest) = i.canonical :: findAll rest := by
  have htake : (i.canonical ++ rest).take 9 = i.canonical := List.take_left' i.length_canonical
  have hcanonical := i.isCanonical_canonical
  have hlength := i.length_canonical
  generalize i.canonical = s at htake hcanonical hlength
  cases s with
  | nil => cases hlength
  | cons c s =>
      have hdrop : (s ++ rest).drop 8 = rest := List.drop_left' (Nat.succ.inj hlength)
      rw [List.cons_append] at htake ⊢
      rw [findAll, htake, if_pos hcanonical, hdrop]

/-- The search finds the numbers of a cut in which each is the first one. -/
theorem findAll_written {ps : List Piece} {tail : List Char} (h : Leftmost ps tail) :
    findAll (written ps tail) = numbers ps := by
  induction ps with
  | nil =>
      have hpassed := findAll_passed h
      rwa [List.append_nil, findAll] at hpassed
  | cons p ps ih =>
      rw [written, findAll_passed h.1, findAll_canonical_append, ih h.2, numbers, numbers,
        List.map_cons]

/-- Every text has such a cut. -/
theorem exists_leftmost (text : List Char) :
    ∃ ps tail, text = written ps tail ∧ Leftmost ps tail := by
  fun_induction findAll text with
  | case1 => exact ⟨[], [], rfl, passed_nil []⟩
  | case2 c text hfound ih =>
      obtain ⟨ps, tail, hrest, hleftmost⟩ := ih
      obtain ⟨i, hi⟩ := exists_canonical_eq hfound
      refine ⟨⟨[], i⟩ :: ps, tail, ?_, passed_nil _, hleftmost⟩
      rw [written, List.nil_append, hi, ← hrest, ← List.drop_succ_cons (a := c),
        List.take_append_drop]
  | case3 c text hno ih =>
      obtain ⟨ps, tail, rfl, hleftmost⟩ := ih
      have hfirst := mt isCanonical_take_iff.mpr hno
      cases ps with
      | nil =>
          refine ⟨[], c :: tail, rfl, passed_cons_iff.mpr ⟨?_, hleftmost⟩⟩
          rwa [List.append_nil]
      | cons p ps =>
          exact ⟨⟨c :: p.gap, p.number⟩ :: ps, tail, rfl,
            passed_cons_iff.mpr ⟨hfirst, hleftmost.1⟩, hleftmost.2⟩

/-- Finding serial numbers. What is found in a text is in canonical form, which no normalization
changes, and it is what the text has between gaps and a tail: in none of these is there another
number, and each number is the first one that begins behind the number in front of it. And in a text
that is made up of numbers with any characters but digits around them, exactly these are found. -/
theorem findAll_leftmost :
    (∀ text : List Char,
      (∀ n ∈ findAll text, normalize (String.ofList n) = String.ofList n) ∧
      ∃ ps tail, text = written ps tail ∧ findAll text = numbers ps ∧ Leftmost ps tail ∧
        (∀ p ∈ ps, Bare p.gap) ∧ Bare tail) ∧
    ∀ (ps : List Piece) (tail : List Char), (∀ p ∈ ps, ∀ c ∈ p.gap, c.isDigit = false) →
      (∀ c ∈ tail, c.isDigit = false) → findAll (written ps tail) = numbers ps := by
  constructor
  · intro text
    obtain ⟨ps, tail, htext, hleftmost⟩ := exists_leftmost text
    refine ⟨fun n hn => normalize_of_mem_findAll hn, ps, tail, htext, ?_, hleftmost,
      hleftmost.bare⟩
    rw [htext, findAll_written hleftmost]
  · intro ps tail hps htail
    exact findAll_written (leftmost_of_no_digit hps htail)

/-- A number after an `X` and a hyphen, the same number right behind it, and once more an `X`. -/
def crowded : List Piece := [⟨"X-".toList, checkedByX⟩, ⟨[], checkedByX⟩]

theorem findAll_leftmost_crowded :
    written crowded "X".toList = "X-2434-561X2434-561XX".toList ∧
      (∀ p ∈ crowded, ∀ c ∈ p.gap, c.isDigit = false) ∧
      findAll (written crowded "X".toList) = ["2434-561X".toList, "2434-561X".toList] := by
  have hlead : ∀ c ∈ "X-".toList, c.isDigit = false := by simp
  have htail : ∀ c ∈ "X".toList, c.isDigit = false := by simp
  have hgaps : ∀ p ∈ crowded, ∀ c ∈ p.gap, c.isDigit = false :=
    List.forall_mem_cons.mpr ⟨hlead, List.forall_mem_singleton.mpr (List.forall_mem_nil _)⟩
  exact ⟨by decide, hgaps, findAll_leftmost.2 crowded "X".toList hgaps htail⟩

end Issn

end Holdings
