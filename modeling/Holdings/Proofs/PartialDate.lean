import Holdings.PartialDate
import Holdings.Proofs.Agreement
import Holdings.Proofs.Fields
import Holdings.Proofs.Spelling
import Holdings.Proofs.Timestamp
/-!
# The notations of dates

A date can be spelled in digits, in parts with hyphens, and by a timestamp. `Spells` lists all
spellings, without the reader. The reader tries the timestamp first and then goes by whether there
are digits only; that no notation is taken for another one comes from the hyphens: digits have none,
and the third part of a timestamp is longer than a day and not open
(`Timestamp.Shows.exists_split`).
-/

namespace Holdings

namespace Text

variable {sep : Char} {s t part rest : List Char} {n k : Nat}

/-! ## Cutting at hyphens -/

theorem split_append (h : sep ∉ s) {parts : List (List Char)} (ht : split sep t = part :: parts) :
    split sep (s ++ t) = (s ++ part) :: parts := by
  induction s with
  | nil => exact ht
  | cons c s ih =>
      have hc : c ≠ sep := fun he => h (he ▸ List.mem_cons_self)
      rw [List.cons_append, split, if_neg hc, ih fun hm => h (List.mem_cons_of_mem _ hm)]
      rfl

theorem split_of_not_mem (h : sep ∉ s) : split sep s = [s] := by
  have := split_append h (show split sep [] = [] :: [] from rfl)
  rwa [List.append_nil] at this

theorem split_append_cons (h : sep ∉ s) (rest : List Char) :
    split sep (s ++ sep :: rest) = s :: split sep rest := by
  have hsep : split sep (sep :: rest) = [] :: split sep rest := by rw [split, if_pos rfl]
  have := split_append h hsep
  rwa [List.append_nil] at this

theorem not_mem_of_mem_split (h : part ∈ split sep s) : sep ∉ part := by
  induction s generalizing part with
  | nil =>
      rw [split, List.mem_singleton] at h
      exact h ▸ List.not_mem_nil
  | cons c s ih =>
      rw [split] at h
      split at h
      · rcases List.mem_cons.mp h with rfl | h
        · exact List.not_mem_nil
        · exact ih h
      · next hc =>
        split at h
        · next hs => exact absurd hs (split_ne_nil sep s)
        · next p ps hs =>
          rcases List.mem_cons.mp h with rfl | h
          · intro hm
            rcases List.mem_cons.mp hm with he | hm
            · exact hc he.symm
            · exact ih (hs ▸ List.mem_cons_self) hm
          · exact ih (hs ▸ List.mem_cons_of_mem _ h)

/-! ## Letters and digits -/

theorem toNat_of_isAlpha {c : Char} (h : c.isAlpha = true) :
    65 ≤ c.toNat ∧ c.toNat ≤ 90 ∨ 97 ≤ c.toNat ∧ c.toNat ≤ 122 := by
  simpa [Char.isAlpha, Char.isUpper, Char.isLower, UInt32.le_iff_toNat_le, ← Char.toNat_val] using h

theorem of_isAlphanum {c : Char} (h : c.isAlphanum = true) : isBlank c = false ∧ c ≠ '-' := by
  have hrange : 48 ≤ c.toNat ∧ c.toNat ≤ 57 ∨ 65 ≤ c.toNat ∧ c.toNat ≤ 90 ∨
      97 ≤ c.toNat ∧ c.toNat ≤ 122 := by
    rcases Bool.or_eq_true_iff.mp h with h | h
    · exact .inr (toNat_of_isAlpha h)
    · exact .inl (toNat_of_isDigit h)
  constructor
  · simp only [isBlank, Bool.or_eq_false_iff, Bool.and_eq_false_iff, decide_eq_false_iff_not,
      beq_eq_false_iff_ne]
    omega
  · rintro rfl
    exact absurd hrange (by decide)

theorem isAlphanum_of_isDigit {c : Char} (h : c.isDigit = true) : c.isAlphanum = true := by
  rw [Char.isAlphanum, h, Bool.or_true]

theorem free_of_isAlphanum (h : ∀ c ∈ s, c.isAlphanum = true) : ∀ c ∈ s, isBlank c = false :=
  fun c hc => (of_isAlphanum (h c hc)).1

theorem IsNumeral.free (h : IsNumeral s n) : ∀ c ∈ s, isBlank c = false :=
  free_of_isAlphanum fun c hc => isAlphanum_of_isDigit (h.digits c hc)

theorem IsNumeral.not_dash (h : IsNumeral s n) : '-' ∉ s :=
  fun hm => absurd (h.digits '-' hm) (by decide)

theorem IsNumeral.unique {m : Nat} (h : IsNumeral s n) (h' : IsNumeral s m) : n = m :=
  h.value.symm.trans h'.value

theorem IsNumeral.exists_cons (h : IsNumeral s n) : ∃ c s', s = c :: s' ∧ c.isDigit = true := by
  obtain ⟨c, s', rfl⟩ := List.exists_cons_of_ne_nil h.ne_nil
  exact ⟨c, s', rfl, h.digits c List.mem_cons_self⟩

end Text

/-! ## The spellings of a date -/

namespace PartialDate

open Text (IsDigits IsNumeral)
open Timestamp (Shows)

variable {s : String} {t part day rest : List Char} {n m k : Nat} {d : PartialDate}

/-- A month as one or two digits, or as its English name in any case, cut to three letters or
not. -/
inductive IsMonth : List Char → Nat → Prop
  | number {part : List Char} {m : Nat} : IsNumeral part m → part.length ≤ 2 → 1 ≤ m → m ≤ 12 →
      IsMonth part m
  | name {part name : List Char} {i : Nat} : monthNames[i]? = some name →
      part.map Char.toLower = name ∨ part.map Char.toLower = name.take 3 → IsMonth part (i + 1)

/-- A part that is left open. -/
def IsOpen (part : List Char) : Prop := ∀ c ∈ part, c = 'x' ∨ c = 'X'

/-- All spellings of a date. -/
inductive Spells : List Char → PartialDate → Prop
  | year {y : List Char} {n : Nat} : IsDigits 4 y n → Spells y ⟨n, none, none⟩
  | openMonth {y xs : List Char} {n : Nat} : IsDigits 4 y n → IsOpen xs →
      Spells (y ++ '-' :: xs) ⟨n, none, none⟩
  | hidden {y xs rest : List Char} {n : Nat} : IsDigits 4 y n → IsOpen xs → '-' ∉ rest →
      Spells (y ++ '-' :: (xs ++ '-' :: rest)) ⟨n, none, none⟩
  | month {y part : List Char} {n m : Nat} : IsDigits 4 y n → IsMonth part m →
      Spells (y ++ '-' :: part) ⟨n, some m, none⟩
  | openDay {y part xs : List Char} {n m : Nat} : IsDigits 4 y n → IsMonth part m → IsOpen xs →
      Spells (y ++ '-' :: (part ++ '-' :: xs)) ⟨n, some m, none⟩
  | day {y part day : List Char} {n m k : Nat} : IsDigits 4 y n → IsMonth part m →
      IsNumeral day k → day.length ≤ 2 → Calendar.isDate n m k = true →
      Spells (y ++ '-' :: (part ++ '-' :: day)) ⟨n, some m, some k⟩
  | monthDigits {y part : List Char} {n m : Nat} : IsDigits 4 y n → IsDigits 2 part m → 1 ≤ m →
      m ≤ 12 → Spells (y ++ part) ⟨n, some m, none⟩
  | dayDigits {y part day : List Char} {n m k : Nat} : IsDigits 4 y n → IsDigits 2 part m →
      IsDigits 2 day k → Calendar.isDate n m k = true →
      Spells (y ++ (part ++ day)) ⟨n, some m, some k⟩
  | timestamp {t : List Char} {n m k : Nat} : Shows t n m k → Spells t ⟨n, some m, some k⟩

/-! ## Parts -/

theorem monthNamed?_monthNames : ∀ i : Fin 12,
    monthNamed? monthNames[i] = some (i.val + 1) ∧
      monthNamed? (monthNames[i].take 3) = some (i.val + 1) := by
  decide

theorem monthNamed?_eq_some_iff {name : List Char} : monthNamed? name = some m ↔
    ∃ i full, monthNames[i]? = some full ∧ (name = full ∨ name = full.take 3) ∧ m = i + 1 := by
  constructor
  · intro h
    obtain ⟨i, hi, rfl⟩ := Option.map_eq_some_iff.mp h
    obtain ⟨hlt, hname, -⟩ := List.findIdx?_eq_some_iff_getElem.mp hi
    exact ⟨i, monthNames[i], List.getElem?_eq_getElem hlt, by simpa using hname, rfl⟩
  · rintro ⟨i, full, hfull, hname, rfl⟩
    obtain ⟨hlt, rfl⟩ := List.getElem?_eq_some_iff.mp hfull
    have hi := monthNamed?_monthNames ⟨i, hlt⟩
    rcases hname with rfl | rfl
    · exact hi.1
    · exact hi.2

/-- The names of the months are written in small letters other than x. -/
theorem letters_of_monthNames {name : List Char} (h : name ∈ monthNames) :
    name ≠ [] ∧ ∀ c ∈ name, c.isLower = true ∧ c ≠ 'x' := by
  have hall : (monthNames.all fun n => n ≠ [] && n.all fun c => c.isLower && c ≠ 'x') = true := by
    decide
  simpa using List.all_eq_true.mp hall name h

theorem letters_of_name {name : List Char} {i : Nat} (hname : monthNames[i]? = some name)
    (h : part.map Char.toLower = name ∨ part.map Char.toLower = name.take 3) :
    part ≠ [] ∧ ∀ c ∈ part, c.toLower.isLower = true ∧ c.toLower ≠ 'x' := by
  obtain ⟨hne, hletters⟩ := letters_of_monthNames (List.mem_of_getElem? hname)
  constructor
  · rintro rfl
    rcases h with h | h
    · exact hne h.symm
    · exact hne (by simpa using h.symm)
  · intro c hc
    have hmem := List.mem_map_of_mem (f := Char.toLower) hc
    apply hletters
    rcases h with h | h
    · exact h ▸ hmem
    · exact List.mem_of_mem_take (h ▸ hmem)

theorem isAlpha_of_toLower {c : Char} (h : c.toLower.isLower = true) : c.isAlpha = true := by
  by_cases hc : c.isUpper = true
  · rw [Char.isAlpha, hc, Bool.true_or]
  · rw [Char.toLower_eq_of_not_isUpper hc] at h
    rw [Char.isAlpha, h, Bool.or_true]

theorem not_isDigit_of_isAlpha {c : Char} (h : c.isAlpha = true) : c.isDigit = false := by
  apply Bool.eq_false_iff.mpr
  intro hdigit
  have hrange := toNat_of_isDigit hdigit
  have := Text.toNat_of_isAlpha h
  omega

theorem IsMonth.isAlphanum (h : IsMonth part m) : ∀ c ∈ part, c.isAlphanum = true := by
  intro c hc
  cases h with
  | number hpart _ _ _ => exact Text.isAlphanum_of_isDigit (hpart.digits c hc)
  | name hname hpart =>
      have hletter := ((letters_of_name hname hpart).2 c hc).1
      rw [Char.isAlphanum, isAlpha_of_toLower hletter, Bool.true_or]

theorem not_isOpen_of_isDigit {c : Char} (h : c.isDigit = true) : ¬ IsOpen (c :: part) := by
  intro hopen
  rcases hopen c List.mem_cons_self with rfl | rfl <;> exact absurd h (by decide)

theorem not_isOpen_append (h : IsNumeral day k) (rest : List Char) : ¬ IsOpen (day ++ rest) := by
  obtain ⟨c, day, rfl, hc⟩ := h.exists_cons
  exact not_isOpen_of_isDigit hc

theorem not_isOpen_of_isNumeral (h : IsNumeral day k) : ¬ IsOpen day := by
  have := not_isOpen_append h []
  rwa [List.append_nil] at this

theorem IsMonth.not_isOpen (h : IsMonth part m) : ¬ IsOpen part := by
  cases h with
  | number hpart _ _ _ => exact not_isOpen_of_isNumeral hpart
  | name hname hpart =>
      obtain ⟨hne, hletters⟩ := letters_of_name hname hpart
      obtain ⟨c, part, rfl⟩ := List.exists_cons_of_ne_nil hne
      intro hopen
      have hx := (hletters c List.mem_cons_self).2
      rcases hopen c List.mem_cons_self with rfl | rfl <;> exact hx (by decide)

theorem IsMonth.of_digits (h : IsMonth part m) (hdigits : ∀ c ∈ part, c.isDigit = true) :
    IsNumeral part m ∧ part.length ≤ 2 ∧ 1 ≤ m ∧ m ≤ 12 := by
  cases h with
  | number hpart hlen hlow hhigh => exact ⟨hpart, hlen, hlow, hhigh⟩
  | name hname hpart =>
      obtain ⟨hne, hletters⟩ := letters_of_name hname hpart
      obtain ⟨c, part, rfl⟩ := List.exists_cons_of_ne_nil hne
      have hc := isAlpha_of_toLower (hletters c List.mem_cons_self).1
      have hdigit := hdigits c List.mem_cons_self
      rw [not_isDigit_of_isAlpha hc] at hdigit
      cases hdigit

theorem month?_eq_some_iff : month? part = some m ↔ IsMonth part m := by
  rw [month?]
  split
  · next hdigits =>
    constructor
    · intro h
      split at h
      · next hlen =>
        obtain ⟨hnat, hbound⟩ := Option.filter_eq_some_iff.mp h
        simp only [Bool.and_eq_true, decide_eq_true_eq] at hbound
        exact .number (Text.natural?_eq_some_iff.mp hnat) hlen hbound.1 hbound.2
      · cases h
    · intro h
      obtain ⟨hpart, hlen, hlow, hhigh⟩ := h.of_digits (List.all_eq_true.mp hdigits)
      rw [if_pos hlen, Text.natural?_eq_some_iff.mpr hpart]
      simp [hlow, hhigh]
  · next hdigits =>
    rw [monthNamed?_eq_some_iff]
    constructor
    · rintro ⟨i, name, hname, hpart, rfl⟩
      exact .name hname hpart
    · intro h
      cases h with
      | number hpart _ _ _ => exact absurd (List.all_eq_true.mpr hpart.digits) hdigits
      | name hname hpart => exact ⟨_, _, hname, hpart, rfl⟩

theorem IsMonth.unique {m' : Nat} (h : IsMonth part m) (h' : IsMonth part m') : m = m' :=
  Option.some.inj ((month?_eq_some_iff.mpr h).symm.trans (month?_eq_some_iff.mpr h'))

theorem isOpen_iff : isOpen part = true ↔ IsOpen part := by
  simp [isOpen, IsOpen]

theorem isOpen_eq_false (h : ¬ IsOpen part) : isOpen part = false := by
  rw [← Bool.not_eq_true, isOpen_iff]
  exact h

theorem IsMonth.isOpen_eq_false (h : IsMonth part m) : isOpen part = false :=
  PartialDate.isOpen_eq_false h.not_isOpen

theorem IsOpen.not_dash (h : IsOpen part) : '-' ∉ part := by
  intro hm
  rcases h '-' hm with he | he <;> exact absurd he (by decide)

theorem IsMonth.not_dash (h : IsMonth part m) : '-' ∉ part :=
  fun hm => (Text.of_isAlphanum (h.isAlphanum '-' hm)).2 rfl

theorem year?_eq_some_iff : year? part = some n ↔ IsDigits 4 part n := by
  rw [year?]
  constructor
  · intro h
    split at h
    · next hlen => exact ⟨Text.natural?_eq_some_iff.mp h, hlen⟩
    · cases h
  · intro h
    rw [if_pos h.length_eq, Text.natural?_eq_some_iff.mpr h.toIsNumeral]

theorem day?_eq_some_iff : day? part = some k ↔ IsNumeral part k ∧ part.length ≤ 2 := by
  rw [day?]
  constructor
  · intro h
    split at h
    · next hlen => exact ⟨Text.natural?_eq_some_iff.mp h, hlen⟩
    · cases h
  · rintro ⟨h, hlen⟩
    rw [if_pos hlen, Text.natural?_eq_some_iff.mpr h]

theorem full?_eq_some_iff {year : Int} :
    full? year m k = some d ↔ Calendar.isDate year m k = true ∧ d = ⟨year, some m, some k⟩ := by
  rw [full?, Calendar.Date.ofYmd?]
  split
  · next h => simp [h, eq_comm]
  · next h => simp [h]

/-! ## Digits only -/

theorem spells_of_ofDigits? (hdigits : ∀ c ∈ t, c.isDigit = true) (h : ofDigits? t = some d) :
    Spells t d := by
  simp only [ofDigits?, Option.bind_eq_bind, Option.bind_eq_some_iff] at h
  obtain ⟨n, hyear, h⟩ := h
  have hyear := Text.natural?_eq_some_iff.mp hyear
  split at h
  · next hlen =>
    cases h
    rw [List.take_of_length_le (Nat.le_of_eq hlen)] at hyear
    exact .year ⟨hyear, hlen⟩
  · split at h
    · next hlen =>
      obtain ⟨m, hmonth, hd⟩ := Option.bind_eq_some_iff.mp h
      cases hd
      obtain ⟨hpart, -, hlow, hhigh⟩ := (month?_eq_some_iff.mp hmonth).of_digits
        fun c hc => hdigits c (List.mem_of_mem_drop hc)
      rw [← List.take_append_drop 4 t]
      exact .monthDigits ⟨hyear, by simp [hlen]⟩ ⟨hpart, by simp [hlen]⟩ hlow hhigh
    · split at h
      · next hlen =>
        obtain ⟨m, hmonth, h⟩ := Option.bind_eq_some_iff.mp h
        obtain ⟨k, hday, h⟩ := Option.bind_eq_some_iff.mp h
        obtain ⟨hreal, rfl⟩ := full?_eq_some_iff.mp h
        have hcut : t = t.take 4 ++ ((t.drop 4).take 2 ++ t.drop 6) := by
          have := List.take_append_drop 2 (t.drop 4)
          rw [List.drop_drop] at this
          rw [this, List.take_append_drop]
        rw [hcut]
        exact .dayDigits ⟨hyear, by simp [hlen]⟩
          ⟨Text.natural?_eq_some_iff.mp hmonth, by simp [hlen]⟩
          ⟨Text.natural?_eq_some_iff.mp hday, by simp [hlen]⟩ hreal
      · cases h

theorem ofDigits?_year {y : List Char} (hy : IsDigits 4 y n) :
    ofDigits? y = some ⟨n, none, none⟩ := by
  simp [ofDigits?, List.take_of_length_le (Nat.le_of_eq hy.length_eq), hy.length_eq, ofYear,
    Text.natural?_eq_some_iff.mpr hy.toIsNumeral]

/-- What eight digits stand for, and what six digits do. -/
theorem ofDigits?_day {y day : List Char} (hy : IsDigits 4 y n) (hm : IsDigits 2 part m)
    (hd : IsDigits 2 day k) : ofDigits? (y ++ (part ++ day)) = full? n m k := by
  have hlen : (y ++ (part ++ day)).length = 8 := by
    simp [hy.length_eq, hm.length_eq, hd.length_eq]
  have htake : (y ++ (part ++ day)).take 4 = y := List.take_left' hy.length_eq
  have hdrop : (y ++ (part ++ day)).drop 4 = part ++ day := List.drop_left' hy.length_eq
  have hrest : (y ++ (part ++ day)).drop 6 = day := by
    rw [← List.append_assoc]
    exact List.drop_left' (by simp [hy.length_eq, hm.length_eq])
  simp [ofDigits?, htake, hdrop, hrest, hlen, List.take_left' hm.length_eq,
    Text.natural?_eq_some_iff.mpr hy.toIsNumeral, Text.natural?_eq_some_iff.mpr hm.toIsNumeral,
    Text.natural?_eq_some_iff.mpr hd.toIsNumeral]

theorem ofDigits?_month {y : List Char} (hy : IsDigits 4 y n) (hm : IsDigits 2 part m) :
    ofDigits? (y ++ part) = (month? part).map fun m => ⟨n, some m, none⟩ := by
  have hlen : (y ++ part).length = 6 := by simp [hy.length_eq, hm.length_eq]
  have htake : (y ++ part).take 4 = y := List.take_left' hy.length_eq
  have hdrop : (y ++ part).drop 4 = part := List.drop_left' hy.length_eq
  simp only [ofDigits?, htake, hdrop, hlen, Text.natural?_eq_some_iff.mpr hy.toIsNumeral]
  cases month? part <;> rfl

/-! ## Parts with hyphens -/

theorem spells_of_ofParts? (h : ofParts? (Text.split '-' t) = some d) : Spells t d := by
  have hjoin := Text.join_split '-' t
  have hfree : ∀ part ∈ Text.split '-' t, '-' ∉ part := fun _ => Text.not_mem_of_mem_split
  unfold ofParts? at h
  split at h
  · next y hs =>
    have ht : y = t := by simpa [hs, Text.join] using hjoin
    obtain ⟨n, hyear, hd⟩ := Option.bind_eq_some_iff.mp h
    cases hd
    exact ht ▸ .year (year?_eq_some_iff.mp hyear)
  · next y p hs =>
    have ht : y ++ '-' :: p = t := by simpa [hs, Text.join] using hjoin
    obtain ⟨n, hyear, h⟩ := Option.bind_eq_some_iff.mp h
    have hyear := year?_eq_some_iff.mp hyear
    rw [← ht]
    split at h
    · next hopen =>
      cases h
      exact .openMonth hyear (isOpen_iff.mp hopen)
    · obtain ⟨m, hmonth, hd⟩ := Option.bind_eq_some_iff.mp h
      cases hd
      exact .month hyear (month?_eq_some_iff.mp hmonth)
  · next y p q hs =>
    have ht : y ++ '-' :: (p ++ '-' :: q) = t := by simpa [hs, Text.join] using hjoin
    obtain ⟨n, hyear, h⟩ := Option.bind_eq_some_iff.mp h
    have hyear := year?_eq_some_iff.mp hyear
    rw [← ht]
    split at h
    · next hopen =>
      cases h
      exact .hidden hyear (isOpen_iff.mp hopen) (hfree q (by simp [hs]))
    · obtain ⟨m, hmonth, h⟩ := Option.bind_eq_some_iff.mp h
      have hmonth := month?_eq_some_iff.mp hmonth
      split at h
      · next hopen =>
        cases h
        exact .openDay hyear hmonth (isOpen_iff.mp hopen)
      · obtain ⟨k, hday, h⟩ := Option.bind_eq_some_iff.mp h
        obtain ⟨hday, hlen⟩ := day?_eq_some_iff.mp hday
        obtain ⟨hreal, rfl⟩ := full?_eq_some_iff.mp h
        exact .day hyear hmonth hday hlen hreal
  · cases h

/-- Where the month is no month, what follows does not matter. -/
theorem ofParts?_of_month?_eq_none {y : List Char} (hopen : ¬ IsOpen part)
    (hmonth : month? part = none) (parts : List (List Char)) :
    ofParts? (y :: part :: parts) = none := by
  have hopen := isOpen_eq_false hopen
  cases parts with
  | nil => cases hy : year? y <;> simp [ofParts?, hopen, hmonth, hy]
  | cons q parts =>
      cases parts with
      | nil => cases hy : year? y <;> simp [ofParts?, hopen, hmonth, hy]
      | cons r parts => rfl

/-- Where the day is not open, it is a real day, and the last part. -/
theorem ofParts?_day_eq_some {y : List Char} {parts : List (List Char)} (hopen : ¬ IsOpen part)
    (hday : ¬ IsOpen day) (h : ofParts? (y :: part :: day :: parts) = some d) :
    ∃ n m k, IsDigits 4 y n ∧ IsMonth part m ∧ IsNumeral day k ∧ day.length ≤ 2 ∧
      Calendar.isDate n m k = true := by
  rw [← isOpen_iff] at hopen hday
  cases parts with
  | cons r parts => cases h
  | nil =>
      rw [ofParts?] at h
      obtain ⟨n, hyear, h⟩ := Option.bind_eq_some_iff.mp h
      rw [if_neg hopen] at h
      obtain ⟨m, hmonth, h⟩ := Option.bind_eq_some_iff.mp h
      rw [if_neg hday] at h
      obtain ⟨k, hday, h⟩ := Option.bind_eq_some_iff.mp h
      obtain ⟨hday, hlen⟩ := day?_eq_some_iff.mp hday
      exact ⟨n, m, k, year?_eq_some_iff.mp hyear, month?_eq_some_iff.mp hmonth, hday, hlen,
        (full?_eq_some_iff.mp h).1⟩

end PartialDate

/-! ## Timestamps and parts -/

/-- Cut at its hyphens, a timestamp begins with a year, a month, and a part in which more follows
the day. -/
theorem Timestamp.Shows.exists_split {t : List Char} {n m k : Nat} (h : Shows t n m k) :
    ∃ year month day mark p ps, Text.IsDigits 4 year n ∧ Text.IsDigits 2 month m ∧
      Text.IsDigits 2 day k ∧ Calendar.isDate n m k = true ∧ mark.isDigit = false ∧
      Text.split '-' t = year :: month :: (day ++ mark :: p) :: ps := by
  obtain ⟨hyear, hmonth, hday, hreal, hclock⟩ := h
  obtain ⟨hmark, -, -, -, -, -, -, -, -⟩ := hclock
  rename_i year month day mark hour minute second fraction offset _ _ _
  generalize hour ++ ':' :: (minute ++ ':' :: (second ++ (fraction ++ offset))) = clock
  obtain ⟨p, ps, hps⟩ := List.exists_cons_of_ne_nil (Text.split_ne_nil '-' clock)
  have hfree : '-' ∉ [mark] ∧ mark.isDigit = false := by
    rcases hmark with rfl | rfl | rfl <;> decide
  have hsplit : Text.split '-' (mark :: clock) = (mark :: p) :: ps :=
    Text.split_append hfree.1 hps
  refine ⟨year, month, day, mark, p, ps, hyear, hmonth, hday, hreal, hfree.2, ?_⟩
  rw [Text.split_append_cons hyear.not_dash, Text.split_append_cons hmonth.not_dash,
    Text.split_append hday.not_dash hsplit]

namespace PartialDate

open Text (IsDigits IsNumeral)
open Timestamp (Shows)

variable {s : String} {t part day rest : List Char} {n m k : Nat} {d : PartialDate}

/-- A timestamp is not read in parts. -/
theorem ofParts?_of_shows (h : Shows t n m k) : ofParts? (Text.split '-' t) = none := by
  obtain ⟨year, month, day, mark, p, ps, -, hmonth, hday, -, -, hsplit⟩ := h.exists_split
  rw [hsplit]
  apply Option.eq_none_iff_forall_ne_some.mpr
  intro d hd
  obtain ⟨-, -, -, -, -, -, hlen, -⟩ := ofParts?_day_eq_some
    (not_isOpen_of_isNumeral hmonth.toIsNumeral)
    (not_isOpen_append hday.toIsNumeral _) hd
  rw [List.length_append, hday.length_eq, List.length_cons] at hlen
  omega

/-! ## The reader -/

theorem parse?_of_digits (ht : Text.trim s.toList = t) (hne : t ≠ [])
    (hdigits : ∀ c ∈ t, c.isDigit = true) : parse? s = ofDigits? t := by
  have hshows : Timestamp.parse? t = none := by
    apply Option.eq_none_iff_forall_ne_some.mpr
    intro x hx
    obtain ⟨y, -, hshows⟩ := Timestamp.shows_of_parse? hx
    obtain ⟨-, -, -, -, -⟩ := hshows
    exact absurd (hdigits '-' (by simp)) (by decide)
  rw [parse?]
  simp only [ht, if_neg hne, hshows, List.all_eq_true.mpr hdigits, if_true]

theorem parse?_of_dash (ht : Text.trim s.toList = t) (hdash : '-' ∈ t)
    (hshows : ∀ n m k, ¬ Shows t n m k) : parse? s = ofParts? (Text.split '-' t) := by
  have hparse : Timestamp.parse? t = none := by
    apply Option.eq_none_iff_forall_ne_some.mpr
    intro x hx
    obtain ⟨y, -, h⟩ := Timestamp.shows_of_parse? hx
    exact hshows _ _ _ h
  have hdigits : ¬ t.all Char.isDigit = true :=
    fun hall => absurd (List.all_eq_true.mp hall '-' hdash) (by decide)
  rw [parse?]
  simp only [ht, if_neg (List.ne_nil_of_mem hdash), hparse, if_neg hdigits]

theorem parse?_of_parts (ht : Text.trim s.toList = t) (hdash : '-' ∈ t)
    (h : ofParts? (Text.split '-' t) = some d) : parse? s = some d := by
  rw [parse?_of_dash ht hdash ?_, h]
  intro n m k hshows
  rw [ofParts?_of_shows hshows] at h
  cases h

theorem parse?_of_shows (ht : Text.trim s.toList = t) (h : Shows t n m k) :
    parse? s = some ⟨n, some m, some k⟩ := by
  obtain ⟨x, hx, hyear, hmonth, hday⟩ := h.exists_parse?_eq
  have hne : t ≠ [] := by
    obtain ⟨-, -, -, -, -⟩ := h
    simp
  rw [parse?]
  simp only [ht, if_neg hne, hx, ofTimestamp, hyear, hmonth, hday]

/-- A text without blanks around it that spells a date is read as this date. -/
theorem Spells.parse?_eq (h : Spells (Text.trim s.toList) d) : parse? s = some d := by
  generalize ht : Text.trim s.toList = t at h
  cases h with
  | year hy =>
      rw [parse?_of_digits ht hy.ne_nil hy.digits, ofDigits?_year hy]
  | openMonth hy hxs =>
      apply parse?_of_parts ht (by simp)
      rw [Text.split_append_cons hy.not_dash, Text.split_of_not_mem hxs.not_dash]
      simp [ofParts?, year?_eq_some_iff.mpr hy, isOpen_iff.mpr hxs, ofYear]
  | hidden hy hxs hrest =>
      apply parse?_of_parts ht (by simp)
      rw [Text.split_append_cons hy.not_dash, Text.split_append_cons hxs.not_dash,
        Text.split_of_not_mem hrest]
      simp [ofParts?, year?_eq_some_iff.mpr hy, isOpen_iff.mpr hxs, ofYear]
  | month hy hm =>
      apply parse?_of_parts ht (by simp)
      rw [Text.split_append_cons hy.not_dash, Text.split_of_not_mem hm.not_dash]
      simp [ofParts?, year?_eq_some_iff.mpr hy, hm.isOpen_eq_false, month?_eq_some_iff.mpr hm]
  | openDay hy hm hxs =>
      apply parse?_of_parts ht (by simp)
      rw [Text.split_append_cons hy.not_dash, Text.split_append_cons hm.not_dash,
        Text.split_of_not_mem hxs.not_dash]
      simp [ofParts?, year?_eq_some_iff.mpr hy, hm.isOpen_eq_false, month?_eq_some_iff.mpr hm,
        isOpen_iff.mpr hxs]
  | day hy hm hd hlen hreal =>
      apply parse?_of_parts ht (by simp)
      obtain ⟨c, day, rfl, hc⟩ := hd.exists_cons
      rw [Text.split_append_cons hy.not_dash, Text.split_append_cons hm.not_dash,
        Text.split_of_not_mem hd.not_dash]
      simp [ofParts?, year?_eq_some_iff.mpr hy, hm.isOpen_eq_false, month?_eq_some_iff.mpr hm,
        isOpen_eq_false (not_isOpen_of_isDigit hc), day?_eq_some_iff.mpr ⟨hd, hlen⟩,
        full?_eq_some_iff.mpr ⟨hreal, rfl⟩]
  | monthDigits hy hm hlow hhigh =>
      have hmonth := IsMonth.number hm.toIsNumeral (Nat.le_of_eq hm.length_eq) hlow hhigh
      have hdigits := List.forall_mem_append.mpr ⟨hy.digits, hm.digits⟩
      rw [parse?_of_digits ht (by simp [hy.ne_nil]) hdigits, ofDigits?_month hy hm,
        month?_eq_some_iff.mpr hmonth]
      rfl
  | dayDigits hy hm hd hreal =>
      have hdigits := List.forall_mem_append.mpr
        ⟨hy.digits, List.forall_mem_append.mpr ⟨hm.digits, hd.digits⟩⟩
      rw [parse?_of_digits ht (by simp [hy.ne_nil]) hdigits, ofDigits?_day hy hm hd,
        full?_eq_some_iff.mpr ⟨hreal, rfl⟩]
  | timestamp h => exact parse?_of_shows ht h

theorem spells_of_parse? (h : parse? s = some d) : Spells (Text.trim s.toList) d := by
  simp only [parse?] at h
  split at h
  · cases h
  · split at h
    · next x hx =>
      obtain ⟨n, hyear, hshows⟩ := Timestamp.shows_of_parse? hx
      cases h
      rw [ofTimestamp, hyear]
      exact .timestamp hshows
    · split at h
      · next hdigits => exact spells_of_ofDigits? (List.all_eq_true.mp hdigits) h
      · exact spells_of_ofParts? h

/-- What the reader reads is the spellings, with blanks around them or not. -/
theorem parse?_eq_some_iff : parse? s = some d ↔ Spells (Text.trim s.toList) d :=
  ⟨spells_of_parse?, Spells.parse?_eq⟩

end PartialDate

end Holdings
