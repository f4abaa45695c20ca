import Holdings.Timestamp
import Holdings.Proofs.Columns
import Holdings.Proofs.Embargo
/-!
# The notation of timestamps

A timestamp is a day in digits and, after a mark, a time of day with its offset. `IsClock` says what
may follow the day, without the reader. The reader goes from left to right and each of its parts
leaves the rest of the text to the next one; so each part has one lemma about the text that it
takes, with the rest left free, and the whole is their chain.
-/

namespace Holdings

/-! ## Digits -/

namespace Text

/-- Exactly `k` digits, which write the number `n`. -/
structure IsDigits (k : Nat) (s : List Char) (n : Nat) : Prop extends IsNumeral s n where
  length_eq : s.length = k

end Text

namespace Timestamp

open Text (IsDigits IsNumeral)

variable {s rest t : List Char} {n : Nat}

/-! ## The parts of a timestamp -/

theorem digits?_append {k : Nat} (h : IsDigits k t n) (rest : List Char) :
    digits? k (t ++ rest) = some (n, rest) := by
  have htake : (t ++ rest).take k = t := List.take_left' h.length_eq
  have hdrop : (t ++ rest).drop k = rest := List.drop_left' h.length_eq
  rw [digits?, htake, hdrop, if_pos ⟨h.length_eq, List.all_eq_true.mpr h.digits⟩, h.value]

theorem digits?_eq_some_iff {k : Nat} (hk : k ≠ 0) :
    digits? k s = some (n, rest) ↔ ∃ t, IsDigits k t n ∧ s = t ++ rest := by
  constructor
  · intro h
    unfold digits? at h
    split at h
    · next hs =>
      cases h
      have hne : s.take k ≠ [] := fun he => hk (by rw [← hs.1, he, List.length_nil])
      exact ⟨s.take k, ⟨⟨hne, List.all_eq_true.mp hs.2, rfl⟩, hs.1⟩,
        (List.take_append_drop k s).symm⟩
    · cases h
  · rintro ⟨t, ht, rfl⟩
    exact digits?_append ht rest

theorem char?_eq_some_iff {c : Char} : char? c s = some rest ↔ s = c :: rest := by
  cases s with
  | nil => simp [char?]
  | cons c' s =>
      rw [char?]
      split
      · next hc => simp [hc]
      · next hc => simp [hc]

/-- The character between date and time. -/
def IsMark (c : Char) : Prop := c = 'T' ∨ c = 't' ∨ c = ' '

theorem clockMark?_eq_some_iff : clockMark? s = some rest ↔ ∃ c, IsMark c ∧ s = c :: rest := by
  cases s with
  | nil => simp [clockMark?]
  | cons c s =>
      rw [clockMark?]
      split
      · next hc =>
        constructor
        · intro h
          exact ⟨c, hc, by rw [Option.some.inj h]⟩
        · rintro ⟨c', -, h⟩
          cases h
          rfl
      · next hc =>
        constructor
        · intro h
          cases h
        · rintro ⟨c', hc', h⟩
          cases h
          exact absurd hc' hc

/-- A decimal fraction of the second, or nothing. -/
inductive IsFraction : List Char → Prop
  | none : IsFraction []
  | digits (digits : List Char) : digits ≠ [] → (∀ c ∈ digits, c.isDigit = true) →
      IsFraction ('.' :: digits)

theorem exists_of_fraction? (h : fraction? s = some (n, rest)) :
    ∃ f, IsFraction f ∧ s = f ++ rest := by
  unfold fraction? at h
  split at h
  · next s =>
    dsimp only at h
    split at h
    · cases h
    · next hne =>
      cases h
      refine ⟨'.' :: s.takeWhile Char.isDigit, .digits _ hne fun c => List.mem_takeWhile_imp, ?_⟩
      rw [List.cons_append, List.takeWhile_append_dropWhile]
  · cases h
    exact ⟨[], .none, rfl⟩

/-- A fraction ends where no digit follows, and is left out where no point follows. -/
theorem exists_fraction?_eq {f : List Char} (hf : IsFraction f)
    (hrest : ∀ c, rest.head? = some c → c.isDigit = false ∧ c ≠ '.') :
    ∃ n, fraction? (f ++ rest) = some (n, rest) := by
  cases hf with
  | none =>
      refine ⟨0, ?_⟩
      rw [List.nil_append]
      unfold fraction?
      split
      · exact absurd rfl (hrest '.' rfl).2
      · rfl
  | digits ds hne hds =>
      have htake : (ds ++ rest).takeWhile Char.isDigit = ds :=
        takeWhile_append_stop hds fun c hc => (hrest c hc).1
      have hdrop : (ds ++ rest).dropWhile Char.isDigit = rest :=
        dropWhile_append_stop hds fun c hc => (hrest c hc).1
      simp only [List.cons_append, fraction?, htake, hdrop, if_neg hne]
      exact ⟨_, rfl⟩

/-- Hours and minutes of an offset. -/
inductive IsSpan : List Char → Prop
  | intro {hours minutes : List Char} {h m : Nat} : IsDigits 2 hours h → h < 24 →
      IsDigits 2 minutes m → m < 60 → IsSpan (hours ++ ':' :: minutes)

theorem exists_of_span? (h : span? s = some (n, rest)) : ∃ o, IsSpan o ∧ s = o ++ rest := by
  simp only [span?, Option.bind_eq_bind, Option.bind_eq_some_iff, Prod.exists] at h
  obtain ⟨hours, s₁, hhours, s₂, hcolon, minutes, s₃, hminutes, h⟩ := h
  obtain ⟨hs, hhs, rfl⟩ := (digits?_eq_some_iff (by decide)).mp hhours
  obtain rfl := char?_eq_some_iff.mp hcolon
  obtain ⟨ms, hms, rfl⟩ := (digits?_eq_some_iff (by decide)).mp hminutes
  split at h
  · next hsmall =>
    cases h
    exact ⟨hs ++ ':' :: ms, .intro hhs hsmall.1 hms hsmall.2, by simp⟩
  · cases h

theorem exists_span?_eq {o : List Char} (ho : IsSpan o) (rest : List Char) :
    ∃ n, span? (o ++ rest) = some (n, rest) := by
  obtain ⟨hhours, hh, hminutes, hm⟩ := ho
  rw [List.append_assoc, List.cons_append, span?, digits?_append hhours]
  simp only [Option.bind_eq_bind, Option.bind_some, char?, if_true, digits?_append hminutes,
    if_pos (And.intro hh hm)]
  exact ⟨_, rfl⟩

/-- The sign of an offset. -/
def IsSign (c : Char) : Prop := c = '+' ∨ c = '-' ∨ c = '\u2212'

/-- An offset from universal time. -/
inductive IsOffset : List Char → Prop
  | universal {c : Char} : c = 'Z' ∨ c = 'z' → IsOffset [c]
  | signed {sign : Char} {o : List Char} : IsSign sign → IsSpan o → IsOffset (sign :: o)

theorem exists_of_offset? {z : Int} (h : offset? s = some (z, rest)) :
    ∃ o, IsOffset o ∧ s = o ++ rest := by
  cases s with
  | nil => cases h
  | cons c s =>
      have hsigned : IsSign c → ∀ f : Nat × List Char → Int × List Char, (∀ p, (f p).2 = p.2) →
          (span? s).map f = some (z, rest) → ∃ o, IsOffset o ∧ c :: s = o ++ rest := by
        intro hc f hf hmap
        obtain ⟨⟨n, rest'⟩, hspan, hp⟩ := Option.map_eq_some_iff.mp hmap
        have hrest : rest' = rest := (hf (n, rest')).symm.trans (congrArg Prod.snd hp)
        obtain ⟨o, ho, rfl⟩ := exists_of_span? (hrest ▸ hspan)
        exact ⟨c :: o, .signed hc ho, rfl⟩
      rw [offset?] at h
      split at h
      · next hc =>
        cases h
        exact ⟨[c], .universal hc, rfl⟩
      · split at h
        · next hc => exact hsigned (.inl hc) _ (fun _ => rfl) h
        · split at h
          · next hc => exact hsigned (.inr hc) _ (fun _ => rfl) h
          · cases h

theorem exists_offset?_eq {o : List Char} (ho : IsOffset o) (rest : List Char) :
    ∃ z, offset? (o ++ rest) = some (z, rest) := by
  cases ho with
  | universal hc => exact ⟨0, by rw [List.singleton_append, offset?, if_pos hc]⟩
  | signed hsign ho =>
      obtain ⟨n, hn⟩ := exists_span?_eq ho rest
      rcases hsign with rfl | rfl | rfl
      · exact ⟨n, by simp [offset?, hn]⟩
      · exact ⟨-n, by simp [offset?, hn]⟩
      · exact ⟨-n, by simp [offset?, hn]⟩

theorem IsOffset.exists_cons {o : List Char} (ho : IsOffset o) :
    ∃ c o', o = c :: o' ∧ c.isDigit = false ∧ c ≠ '.' := by
  cases ho with
  | universal hc =>
      refine ⟨_, [], rfl, ?_⟩
      rcases hc with rfl | rfl <;> decide
  | signed hsign _ =>
      refine ⟨_, _, rfl, ?_⟩
      rcases hsign with rfl | rfl | rfl <;> decide

/-! ## The whole -/

/-- What follows the day of a timestamp: a mark, a time of day, and the offset of its clock. -/
inductive IsClock : List Char → Prop
  | intro {mark : Char} {hour minute second fraction offset : List Char} {h m n : Nat} :
      IsMark mark → IsDigits 2 hour h → h < 24 → IsDigits 2 minute m → m < 60 →
      IsDigits 2 second n → n ≤ 60 → IsFraction fraction → IsOffset offset →
      IsClock (mark :: (hour ++ ':' :: (minute ++ ':' :: (second ++ (fraction ++ offset)))))

/-- A timestamp that shows year, month and day on its own clock. -/
inductive Shows : List Char → Nat → Nat → Nat → Prop
  | intro {year month day clock : List Char} {y m d : Nat} :
      IsDigits 4 year y → IsDigits 2 month m → IsDigits 2 day d → Calendar.isDate y m d = true →
      IsClock clock → Shows (year ++ '-' :: (month ++ '-' :: (day ++ clock))) y m d

theorem shows_of_parse? {x : Timestamp} (h : parse? s = some x) :
    ∃ y : Nat, x.date.year = y ∧ Shows s y x.date.month x.date.day := by
  unfold parse? at h
  obtain ⟨⟨year, s₁⟩, hyear, h⟩ := Option.bind_eq_some_iff.mp h
  obtain ⟨s₂, hdash, h⟩ := Option.bind_eq_some_iff.mp h
  obtain ⟨⟨month, s₃⟩, hmonth, h⟩ := Option.bind_eq_some_iff.mp h
  obtain ⟨s₄, hdash', h⟩ := Option.bind_eq_some_iff.mp h
  obtain ⟨⟨day, s₅⟩, hday, h⟩ := Option.bind_eq_some_iff.mp h
  obtain ⟨s₆, hmark, h⟩ := Option.bind_eq_some_iff.mp h
  obtain ⟨⟨hour, s₇⟩, hhour, h⟩ := Option.bind_eq_some_iff.mp h
  obtain ⟨s₈, hcolon, h⟩ := Option.bind_eq_some_iff.mp h
  obtain ⟨⟨minute, s₉⟩, hminute, h⟩ := Option.bind_eq_some_iff.mp h
  obtain ⟨s₁₀, hcolon', h⟩ := Option.bind_eq_some_iff.mp h
  obtain ⟨⟨second, s₁₁⟩, hsecond, h⟩ := Option.bind_eq_some_iff.mp h
  obtain ⟨⟨nanos, s₁₂⟩, hfraction, h⟩ := Option.bind_eq_some_iff.mp h
  obtain ⟨⟨z, s₁₃⟩, hoffset, h⟩ := Option.bind_eq_some_iff.mp h
  obtain ⟨date, hdate, h⟩ := Option.bind_eq_some_iff.mp h
  obtain ⟨ys, hys, rfl⟩ := (digits?_eq_some_iff (by decide)).mp hyear
  obtain rfl := char?_eq_some_iff.mp hdash
  obtain ⟨ms, hms, rfl⟩ := (digits?_eq_some_iff (by decide)).mp hmonth
  obtain rfl := char?_eq_some_iff.mp hdash'
  obtain ⟨ds, hds, rfl⟩ := (digits?_eq_some_iff (by decide)).mp hday
  obtain ⟨mark, hmarks, rfl⟩ := clockMark?_eq_some_iff.mp hmark
  obtain ⟨hs, hhs, rfl⟩ := (digits?_eq_some_iff (by decide)).mp hhour
  obtain rfl := char?_eq_some_iff.mp hcolon
  obtain ⟨ns, hns, rfl⟩ := (digits?_eq_some_iff (by decide)).mp hminute
  obtain rfl := char?_eq_some_iff.mp hcolon'
  obtain ⟨ss, hss, rfl⟩ := (digits?_eq_some_iff (by decide)).mp hsecond
  obtain ⟨f, hf, rfl⟩ := exists_of_fraction? hfraction
  obtain ⟨o, ho, rfl⟩ := exists_of_offset? hoffset
  unfold Calendar.Date.ofYmd? at hdate
  split at hdate
  · next hreal =>
    cases hdate
    split at h
    · next hend =>
      cases h
      obtain ⟨rfl, hh, hm, hsec⟩ := hend
      rw [List.append_nil]
      exact ⟨year, rfl, .intro hys hms hds hreal (.intro hmarks hhs hh hns hm hss hsec hf ho)⟩
    · cases h
  · cases hdate

theorem Shows.exists_parse?_eq {y m d : Nat} (h : Shows s y m d) :
    ∃ x : Timestamp, parse? s = some x ∧ x.date.year = y ∧ x.date.month = m ∧ x.date.day = d := by
  obtain ⟨hyear, hmonth, hday, hreal, hclock⟩ := h
  obtain ⟨hmark, hhour, hh, hminute, hm, hsecond, hsec, hf, ho⟩ := hclock
  rename_i mark hour minute second fraction offset h m' n
  have hrest : ∀ c, offset.head? = some c → c.isDigit = false ∧ c ≠ '.' := by
    obtain ⟨c, o, rfl, hc⟩ := ho.exists_cons
    rintro _ ⟨⟩
    exact hc
  obtain ⟨nanos, hnanos⟩ := exists_fraction?_eq hf hrest
  obtain ⟨z, hz⟩ := exists_offset?_eq ho []
  rw [List.append_nil] at hz
  refine ⟨⟨⟨y, m, d, hreal⟩, h, m', n, nanos, z⟩, ?_, rfl, rfl, rfl⟩
  refine Option.bind_eq_some_iff.mpr ⟨_, digits?_append hyear _, ?_⟩
  refine Option.bind_eq_some_iff.mpr ⟨_, char?_eq_some_iff.mpr rfl, ?_⟩
  refine Option.bind_eq_some_iff.mpr ⟨_, digits?_append hmonth _, ?_⟩
  refine Option.bind_eq_some_iff.mpr ⟨_, char?_eq_some_iff.mpr rfl, ?_⟩
  refine Option.bind_eq_some_iff.mpr ⟨_, digits?_append hday _, ?_⟩
  refine Option.bind_eq_some_iff.mpr ⟨_, clockMark?_eq_some_iff.mpr ⟨mark, hmark, rfl⟩, ?_⟩
  refine Option.bind_eq_some_iff.mpr ⟨_, digits?_append hhour _, ?_⟩
  refine Option.bind_eq_some_iff.mpr ⟨_, char?_eq_some_iff.mpr rfl, ?_⟩
  refine Option.bind_eq_some_iff.mpr ⟨_, digits?_append hminute _, ?_⟩
  refine Option.bind_eq_some_iff.mpr ⟨_, char?_eq_some_iff.mpr rfl, ?_⟩
  refine Option.bind_eq_some_iff.mpr ⟨_, digits?_append hsecond _, ?_⟩
  refine Option.bind_eq_some_iff.mpr ⟨_, hnanos, ?_⟩
  refine Option.bind_eq_some_iff.mpr ⟨_, hz, ?_⟩
  refine Option.bind_eq_some_iff.mpr ⟨_, dif_pos hreal, ?_⟩
  exact if_pos ⟨rfl, hh, hm, hsec⟩

end Timestamp

end Holdings
