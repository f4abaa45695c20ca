import Mathlib.Data.List.TakeWhile
import Holdings.Filter
/-!
# Normal forms of identifiers

Trimming, compacting and bringing to the key are done once: what they give they leave alone. So a
list of identifiers in normal form, each of them once, is read as itself, and a leaf is the same
whether it is made from identifiers as they were written or from those that it holds.
-/

namespace Holdings

/-! ## Blanks at the ends -/

namespace Text

theorem trimStart_eq_self_iff {s : List Char} :
    trimStart s = s ↔ s.head?.all fun c => !isBlank c := by
  cases s with
  | nil => simp [trimStart]
  | cons c s =>
      cases hc : isBlank c with
      | false => simp [trimStart, hc]
      | true =>
          have hlen := (List.dropWhile_sublist isBlank (l := s)).length_le
          simp only [trimStart, List.dropWhile_cons, hc, if_true, List.head?_cons, Option.all_some,
            Bool.not_true, Bool.false_eq_true, iff_false]
          intro h
          have := congrArg List.length h
          rw [List.length_cons] at this
          omega

theorem head?_trimStart (s : List Char) : (trimStart s).head?.all fun c => !isBlank c := by
  induction s with
  | nil => rfl
  | cons c s ih =>
      cases hc : isBlank c with
      | false => simp [trimStart, hc]
      | true => simpa [trimStart, hc] using ih

@[simp] theorem trimStart_trimStart (s : List Char) : trimStart (trimStart s) = trimStart s :=
  trimStart_eq_self_iff.mpr (head?_trimStart s)

/-- Taking blanks from the end leaves the first character, unless nothing is left. -/
theorem head?_trimEnd {s : List Char} (h : s.head?.all fun c => !isBlank c) :
    (trimEnd s).head?.all fun c => !isBlank c := by
  cases s with
  | nil => exact h
  | cons c s =>
      have hc : isBlank c = false := by simpa using h
      rw [trimEnd, trimStart, List.reverse_cons, List.dropWhile_append]
      split
      · simp [hc]
      · simp [hc]

/-- Only blanks are trimmed to nothing. -/
theorem trim_eq_nil_iff {s : List Char} : trim s = [] ↔ ∀ c ∈ s, isBlank c = true := by
  have hstart : trimStart s = [] ↔ ∀ c ∈ s, isBlank c = true := List.dropWhile_eq_nil_iff
  rw [← hstart]
  constructor
  · intro h
    have hhead := head?_trimStart s
    rw [trim, trimEnd, List.reverse_eq_nil_iff, trimStart, List.dropWhile_eq_nil_iff] at h
    cases hs : trimStart s with
    | nil => rfl
    | cons c t =>
        rw [hs] at h hhead
        have hc := h c (by simp)
        simp [hc] at hhead
  · intro h
    rw [trim, h]
    rfl

@[simp] theorem trim_trim (s : List Char) : trim (trim s) = trim s := by
  have hstart : trimStart (trim s) = trim s :=
    trimStart_eq_self_iff.mpr (head?_trimEnd (head?_trimStart s))
  rw [trim, hstart, trim, trimEnd, trimEnd, List.reverse_reverse, trimStart_trimStart]

@[simp] theorem trimmed_trimmed (s : String) : trimmed (trimmed s) = trimmed s := by
  rw [trimmed, toList_trimmed, trim_trim, trimmed]

end Text

/-! ## Capitals -/

theorem toNat_toUpper (c : Char) :
    c.toUpper.toNat = if 97 ≤ c.toNat ∧ c.toNat ≤ 122 then c.toNat - 32 else c.toNat := by
  have ha : 'a'.val.toNat = 97 := rfl
  have hz : 'z'.val.toNat = 122 := rfl
  have hshift : ('A'.val - 'a'.val).toNat = 4294967264 := rfl
  unfold Char.toUpper
  simp only [UInt32.le_iff_toNat_le, ha, hz]
  split
  · next h =>
    have h' : 97 ≤ c.toNat ∧ c.toNat ≤ 122 := h
    rw [if_pos h']
    show (c.val + ('A'.val - 'a'.val)).toNat = c.val.toNat - 32
    rw [UInt32.toNat_add, hshift]
    omega
  · next h =>
    have h' : ¬ (97 ≤ c.toNat ∧ c.toNat ≤ 122) := h
    rw [if_neg h']

theorem toUpper_eq_self {c : Char} (h : ¬ (97 ≤ c.toNat ∧ c.toNat ≤ 122)) : c.toUpper = c := by
  apply Char.toNat_inj.mp
  rw [toNat_toUpper, if_neg h]

@[simp] theorem toUpper_toUpper (c : Char) : c.toUpper.toUpper = c.toUpper := by
  apply toUpper_eq_self
  rw [toNat_toUpper]
  split <;> omega

theorem toNat_of_isDigit {c : Char} (h : c.isDigit = true) : 48 ≤ c.toNat ∧ c.toNat ≤ 57 := by
  simp only [Char.isDigit, Bool.and_eq_true, decide_eq_true_eq, ge_iff_le,
    UInt32.le_iff_toNat_le] at h
  exact h

/-! ## Serial and book numbers -/

namespace Issn

/-- Whether a character counts in a serial or book number. -/
def counts (c : Char) : Bool := c ≠ '-' && !Text.isBlank c

theorem squeeze_eq (s : List Char) : squeeze s = (s.filter counts).map Char.toUpper := rfl

theorem counts_of_alphanumeric {c : Char} (h : 48 ≤ c.toNat ∧ c.toNat ≤ 122) :
    counts c = true := by
  have hdash : c ≠ '-' := by
    intro he
    have : c.toNat = 45 := congrArg Char.toNat he
    omega
  simp only [counts, Text.isBlank, ne_eq, hdash, not_false_eq_true, decide_true, Bool.true_and,
    Bool.not_eq_true', Bool.or_eq_false_iff, Bool.and_eq_false_iff, decide_eq_false_iff_not,
    beq_eq_false_iff_ne]
  omega

/-- Capitals count where small letters do. -/
@[simp] theorem counts_toUpper (c : Char) : counts c.toUpper = counts c := by
  by_cases hlow : 97 ≤ c.toNat ∧ c.toNat ≤ 122
  · have hnat : c.toUpper.toNat = c.toNat - 32 := by rw [toNat_toUpper, if_pos hlow]
    rw [counts_of_alphanumeric (by omega), counts_of_alphanumeric (by omega)]
  · rw [toUpper_eq_self hlow]

@[simp] theorem squeeze_squeeze (s : List Char) : squeeze (squeeze s) = squeeze s := by
  have hcounts : ∀ c ∈ (s.filter counts).map Char.toUpper, counts c = true := by
    intro c hc
    obtain ⟨d, hd, rfl⟩ := List.mem_map.mp hc
    exact (counts_toUpper d).trans (List.mem_filter.mp hd).2
  rw [squeeze_eq (squeeze s), squeeze_eq s, List.filter_eq_self.mpr hcounts, List.map_map]
  exact List.map_congr_left fun c _ => toUpper_toUpper c

@[simp] theorem squeeze_map_toUpper (s : List Char) : squeeze (s.map Char.toUpper) = squeeze s := by
  have hcounts : counts ∘ Char.toUpper = counts := funext counts_toUpper
  rw [squeeze_eq, List.filter_map, hcounts, List.map_map, squeeze_eq]
  exact List.map_congr_left fun c _ => toUpper_toUpper c

/-- Blanks do not count, so it does not matter whether those at the ends are taken away. -/
theorem filter_counts_trimStart (s : List Char) :
    (Text.trimStart s).filter counts = s.filter counts := by
  induction s with
  | nil => rfl
  | cons c s ih =>
      cases hc : Text.isBlank c with
      | false => simp [Text.trimStart, hc]
      | true =>
          have : counts c = false := by simp [counts, hc]
          simpa [Text.trimStart, hc, this] using ih

theorem squeeze_trim (s : List Char) : squeeze (Text.trim s) = squeeze s := by
  rw [squeeze_eq, squeeze_eq, Text.trim, Text.trimEnd, List.filter_reverse,
    filter_counts_trimStart, List.filter_reverse, List.reverse_reverse, filter_counts_trimStart]

theorem parse?_trimmed (s : String) : parse? (Text.trimmed s) = parse? s := by
  unfold parse?
  simp only [Text.toList_trimmed, squeeze_trim]

theorem normalize_trimmed (s : String) : normalize (Text.trimmed s) = normalize s := by
  rw [normalize, normalize, parse?_trimmed, Text.trimmed_trimmed]

/-! ### The canonical form -/

theorem mem_compact {i : Issn} {c : Char} (h : c ∈ i.compact) : c.isDigit = true ∨ c = 'X' := by
  have hw := i.wellFormed
  simp only [isCompact, Bool.and_eq_true, List.all_eq_true] at hw
  rw [← List.take_append_drop 7 i.compact] at h
  rcases List.mem_append.mp h with h | h
  · exact Or.inl (hw.1.2 c h)
  · simpa [isCheck] using hw.2 c h

/-- Digits and check characters count, and they are capitals. -/
theorem counts_of_check {c : Char} (h : c.isDigit = true ∨ c = 'X') :
    counts c = true ∧ c.toUpper = c := by
  have hnat : 48 ≤ c.toNat ∧ c.toNat ≤ 57 ∨ c.toNat = 88 := by
    rcases h with hd | rfl
    · exact Or.inl (toNat_of_isDigit hd)
    · exact Or.inr rfl
  exact ⟨counts_of_alphanumeric (by omega), toUpper_eq_self (by omega)⟩

theorem squeeze_canonical (i : Issn) : squeeze i.canonical = i.compact := by
  have hcounts : ∀ c ∈ i.compact, counts c = true := fun c hc =>
    (counts_of_check (mem_compact hc)).1
  have hupper : i.compact.map Char.toUpper = i.compact :=
    (List.map_congr_left fun c hc => (counts_of_check (mem_compact hc)).2).trans (List.map_id _)
  have hdash : counts '-' = false := by decide
  rw [squeeze_eq, canonical, List.filter_append, List.filter_cons, hdash, if_neg (by simp),
    ← List.filter_append, List.take_append_drop, List.filter_eq_self.mpr hcounts, hupper]

theorem isEmpty_text (i : Issn) : i.text.isEmpty = false := by
  rw [Bool.eq_false_iff]
  intro he
  have hnil : i.text.toList = [] := by rw [String.isEmpty_iff.mp he]; rfl
  rw [text, String.toList_ofList, canonical] at hnil
  exact absurd (List.append_eq_nil_iff.mp hnil).2 (List.cons_ne_nil _ _)

theorem parse?_text (i : Issn) : parse? i.text = some i := by
  have hsq : squeeze i.text.toList = i.compact := by
    rw [text, String.toList_ofList, squeeze_canonical]
  unfold parse?
  simp only [hsq, i.wellFormed, dite_true]

theorem normalize_text (i : Issn) : normalize i.text = i.text := by
  rw [normalize, parse?_text]

@[simp] theorem normalize_normalize (s : String) : normalize (normalize s) = normalize s := by
  cases h : parse? s with
  | some i =>
      have hs : normalize s = i.text := by rw [normalize, h]
      rw [hs, normalize_text]
  | none =>
      have hs : normalize s = Text.trimmed s := by rw [normalize, h]
      rw [hs, normalize, parse?_trimmed, h, Text.trimmed_trimmed]

/-! ### Numbers found in a text -/

/-- Four digits, a hyphen and four more characters are a serial number in canonical form. -/
theorem exists_canonical_eq {s : List Char} (h : isCanonical s = true) :
    ∃ i : Issn, i.canonical = s := by
  simp only [isCanonical, Bool.and_eq_true, decide_eq_true_eq] at h
  obtain ⟨⟨⟨⟨hlength, hfirst⟩, hdash⟩, hlast⟩, hcheck⟩ := h
  match s, hlength with
  | [a, b, c, d, dash, e, f, g, x], _ =>
    obtain rfl : dash = '-' := by simpa using hdash
    have hw : isCompact [a, b, c, d, e, f, g, x] = true := by
      simp only [List.take_succ_cons, List.take_zero, List.drop_succ_cons, List.drop_zero,
        List.all_cons, List.all_nil, Bool.and_true, Bool.and_eq_true] at hfirst hlast hcheck
      simp [isCompact, hfirst, hlast, hcheck]
    exact ⟨⟨_, hw⟩, rfl⟩

theorem isCanonical_of_mem_findAll {s text : List Char} (h : s ∈ findAll text) :
    isCanonical s = true := by
  fun_induction findAll text with
  | case1 => exact absurd h List.not_mem_nil
  | case2 c text hfound ih =>
      rcases List.mem_cons.mp h with rfl | h
      · exact hfound
      · exact ih h
  | case3 c text _ ih => exact ih h

/-- What is found in a text is its own key. -/
theorem normalize_of_mem_findAll {s text : List Char} (h : s ∈ findAll text) :
    normalize (String.ofList s) = String.ofList s := by
  obtain ⟨i, rfl⟩ := exists_canonical_eq (isCanonical_of_mem_findAll h)
  exact normalize_text i

end Issn

@[simp] theorem Isbn.normalize_normalize (s : String) :
    Isbn.normalize (Isbn.normalize s) = Isbn.normalize s := by
  rw [Isbn.normalize, Isbn.normalize, String.toList_ofList, Issn.squeeze_squeeze]

/-! ## Identifiers each once -/

theorem eraseDups_eraseDups (ids : List String) : ids.eraseDups.eraseDups = ids.eraseDups := by
  induction hn : ids.length using Nat.strongRecOn generalizing ids with
  | ind n ih =>
    cases ids with
    | nil => rfl
    | cons id ids =>
        have hlen := (List.filter_sublist (p := fun other => !other == id) (l := ids)).length_le
        have hrest : ∀ other ∈ (ids.filter fun other => !other == id).eraseDups,
            (!other == id) = true := by
          intro other hmem
          exact (List.mem_filter.mp (List.mem_eraseDups.mp hmem)).2
        rw [List.eraseDups_cons, List.eraseDups_cons, List.filter_eq_self.mpr hrest]
        rw [ih _ (by rw [List.length_cons] at hn; omega) _ rfl]

theorem nodup_eraseDups (ids : List String) : ids.eraseDups.Nodup := by
  induction hn : ids.length using Nat.strongRecOn generalizing ids with
  | ind n ih =>
    cases ids with
    | nil => exact List.nodup_nil
    | cons id ids =>
        have hlen := List.length_filter_le (fun other => !other == id) ids
        rw [List.length_cons] at hn
        rw [List.eraseDups_cons, List.nodup_cons]
        refine ⟨fun hmem => ?_, ih _ (by omega) _ rfl⟩
        have := (List.mem_filter.mp (List.mem_eraseDups.mp hmem)).2
        simp at this

theorem nodup_distinct (ids : List String) : (distinct ids).Nodup := nodup_eraseDups _

@[simp] theorem distinct_distinct (ids : List String) : distinct (distinct ids) = distinct ids := by
  have hfilter : ∀ id ∈ distinct ids, (!id.isEmpty) = true := by
    intro id hid
    rw [(mem_distinct.mp hid).2]
    rfl
  rw [distinct, List.filter_eq_self.mpr hfilter, distinct, eraseDups_eraseDups]

/-- Distinct identifiers in a normal form are already what they would be brought to. -/
theorem distinct_map_distinct {normal : String → String}
    (h : ∀ id, normal (normal id) = normal id) (ids : List String) :
    distinct ((distinct (ids.map normal)).map normal) = distinct (ids.map normal) := by
  have hfix : (distinct (ids.map normal)).map normal = distinct (ids.map normal) := by
    refine (List.map_congr_left fun id hid => ?_).trans (List.map_id _)
    obtain ⟨id', -, rfl⟩ := List.mem_map.mp (mem_distinct.mp hid).1
    exact h id'
  rw [hfix, distinct_distinct]

/-! ## Leaves from the identifiers that they hold -/

namespace Filter

theorem ofIssns_distinct (ids : List String) :
    ofIssns (distinct (ids.map Issn.normalize)) = ofIssns ids :=
  congrArg Filter.issn (distinct_map_distinct Issn.normalize_normalize ids)

theorem ofDois_distinct (ids : List String) :
    ofDois (distinct (ids.map Text.trimmed)) = ofDois ids :=
  congrArg Filter.doi (distinct_map_distinct Text.trimmed_trimmed ids)

theorem ofIsbns_distinct (ids : List String) :
    ofIsbns (distinct (ids.map Isbn.normalize)) = ofIsbns ids :=
  congrArg Filter.isbn (distinct_map_distinct Isbn.normalize_normalize ids)

end Filter

end Holdings
