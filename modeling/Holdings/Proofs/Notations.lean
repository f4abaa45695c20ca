import Holdings.Proofs.PartialDate
/-!
# All notations of a date agree

The spellings of a date keep their meaning with blanks around them, so each of them is read as this
date. Of the texts that only look like a date those are refused whose second part is neither open
nor a month, and those whose third part begins with a day that does not exist; this covers the
timestamps of such days, since a text is a timestamp only if its first three parts say a real day.
-/

namespace Holdings

namespace Text

variable {sep : Char} {s t part : List Char}

/-- A text begins as the first of its parts does. -/
theorem head?_of_split {c : Char} {parts : List (List Char)} (h : split sep s = part :: parts)
    (hc : part.head? = some c) : s.head? = some c := by
  have hjoin := join_split sep s
  rw [h] at hjoin
  obtain ⟨part, rfl⟩ := List.head?_eq_some_iff.mp hc
  rw [← hjoin]
  cases parts <;> rfl

/-! ## Blanks around a text -/

/-- Behind a text without blanks, trimming has an effect only on what follows it. -/
theorem trim_append_of_free (hne : s ≠ []) (h : ∀ c ∈ s, isBlank c = false) :
    trim (s ++ t) = s ++ trimEnd t := by
  have hstart : trimStart (s ++ t) = s ++ t := by
    obtain ⟨c, s, rfl⟩ := List.exists_cons_of_ne_nil hne
    exact trimStart_eq_self_iff.mpr (by simp [h c List.mem_cons_self])
  have hs : trimStart s.reverse = s.reverse :=
    trimStart_of_free fun c hc => h c (List.mem_reverse.mp hc)
  rw [trim, hstart, trimEnd, List.reverse_append, trimStart, List.dropWhile_append]
  split
  · next hblank =>
    have hnil : trimStart t.reverse = [] := List.isEmpty_iff.mp hblank
    rw [trimEnd, hnil, List.reverse_nil, List.append_nil, ← trimStart, hs, List.reverse_reverse]
  · rw [List.reverse_append, List.reverse_reverse, ← trimStart, ← trimEnd]

theorem mem_of_mem_trimEnd {c : Char} (h : c ∈ trimEnd s) : c ∈ s :=
  List.mem_reverse.mp ((List.dropWhile_sublist isBlank).subset (List.mem_reverse.mp h))

theorem trim_blanks_around {lead tail : List Char} (hlead : ∀ c ∈ lead, isBlank c = true)
    (htail : ∀ c ∈ tail, isBlank c = true) : trim (lead ++ s ++ tail) = trim s := by
  rw [trim_append htail, trim, trimStart_append hlead, trim]

theorem free_dash (hs : ∀ c ∈ s, isBlank c = false) (ht : ∀ c ∈ t, isBlank c = false) :
    ∀ c ∈ s ++ '-' :: t, isBlank c = false :=
  List.forall_mem_append.mpr ⟨hs, List.forall_mem_cons.mpr ⟨rfl, ht⟩⟩

end Text

/-! ## Real days -/

namespace Calendar

variable {year : Int} {m k : Nat}

theorem length_monthLengths (year : Int) : (monthLengths year).length = 12 := rfl

theorem length_of_mem_monthLengths : ∀ l ∈ monthLengths year, 28 ≤ l ∧ l ≤ 31 := by
  unfold monthLengths
  cases isLeap year <;> decide

theorem daysInMonth_bounds (hlow : 1 ≤ m) (hhigh : m ≤ 12) :
    28 ≤ daysInMonth year m ∧ daysInMonth year m ≤ 31 := by
  obtain ⟨i, rfl⟩ := Nat.exists_eq_add_of_le' hlow
  have hi : i < (monthLengths year).length := hhigh
  rw [daysInMonth, List.getD_eq_getElem _ _ hi]
  exact length_of_mem_monthLengths _ (List.getElem_mem hi)

/-- Only the months from 1 to 12 have days. -/
theorem month_of_daysInMonth (h : 1 ≤ daysInMonth year m) : 1 ≤ m ∧ m ≤ 12 := by
  cases m with
  | zero => cases h
  | succ i =>
      refine ⟨Nat.succ_pos i, Nat.succ_le_of_lt ?_⟩
      by_contra hi
      have hzero : daysInMonth year (i + 1) = 0 :=
        List.getD_eq_default _ _ (by rw [length_monthLengths]; omega)
      omega

theorem bounds_of_isDate (h : isDate year m k = true) :
    1 ≤ m ∧ m ≤ 12 ∧ 1 ≤ k ∧ k ≤ 31 := by
  simp only [isDate, Bool.and_eq_true, decide_eq_true_eq] at h
  obtain ⟨hlow, hhigh⟩ : 1 ≤ m ∧ m ≤ 12 := month_of_daysInMonth (h.1.2.trans h.2)
  exact ⟨hlow, hhigh, h.1.2, h.2.trans (daysInMonth_bounds hlow hhigh).2⟩

end Calendar

namespace Timestamp

theorem IsOffset.exists_append {o : List Char} (h : IsOffset o) :
    ∃ o' u, o = o' ++ [u] ∧ Text.isBlank u = false := by
  cases h with
  | @universal c hc =>
      refine ⟨[], c, rfl, ?_⟩
      rcases hc with rfl | rfl <;> rfl
  | @signed sign _ _ ho =>
      obtain ⟨-, -, hminutes, -⟩ := ho
      rename_i hours minutes _ _
      have hlast := List.dropLast_concat_getLast hminutes.ne_nil
      refine ⟨sign :: (hours ++ ':' :: minutes.dropLast), minutes.getLast hminutes.ne_nil, ?_,
        hminutes.free _ (List.getLast_mem hminutes.ne_nil)⟩
      simp [hlast]

theorem Shows.trim_eq {t : List Char} {n m k : Nat} (h : Shows t n m k) : Text.trim t = t := by
  obtain ⟨hyear, -, -, -, hclock⟩ := h
  obtain ⟨-, -, -, -, -, -, -, -, hoffset⟩ := hclock
  obtain ⟨c, year, rfl, hc⟩ := hyear.exists_cons
  obtain ⟨o, u, rfl, hu⟩ := hoffset.exists_append
  rename_i month day mark hour minute second fraction _ _ _
  have := Text.trim_of_ends (Text.of_isAlphanum (Text.isAlphanum_of_isDigit hc)).1 hu
    (year ++ '-' :: (month ++ '-' :: (day ++ mark :: (hour ++ ':' :: (minute ++ ':' ::
      (second ++ (fraction ++ o)))))))
  simpa using this

end Timestamp

namespace PartialDate

open Text (IsDigits IsNumeral)
open Timestamp (Shows)

variable {s : String} {t part day : List Char} {n m k : Nat} {d : PartialDate}

/-! ## Blanks around a spelling -/

theorem IsOpen.free (h : IsOpen part) : ∀ c ∈ part, Text.isBlank c = false := by
  intro c hc
  rcases h c hc with rfl | rfl <;> rfl

theorem IsMonth.free (h : IsMonth part m) : ∀ c ∈ part, Text.isBlank c = false :=
  Text.free_of_isAlphanum h.isAlphanum

/-- Without the blanks around it, a spelling spells the same date. -/
theorem Spells.trim (h : Spells t d) : Spells (Text.trim t) d := by
  cases h with
  | year hy =>
      rw [Text.trim_of_free hy.free]
      exact .year hy
  | openMonth hy hxs =>
      rw [Text.trim_of_free (Text.free_dash hy.free hxs.free)]
      exact .openMonth hy hxs
  | hidden hy hxs hrest =>
      rename_i y xs rest n
      have hfree : ∀ c ∈ y ++ '-' :: (xs ++ '-' :: []), Text.isBlank c = false :=
        Text.free_dash hy.free (Text.free_dash hxs.free nofun)
      have ht : y ++ '-' :: (xs ++ '-' :: rest) = (y ++ '-' :: (xs ++ '-' :: [])) ++ rest := by simp
      have hrest' : '-' ∉ Text.trimEnd rest := fun hm => hrest (Text.mem_of_mem_trimEnd hm)
      rw [ht, Text.trim_append_of_free (by simp) hfree]
      simpa using Spells.hidden hy hxs hrest'
  | month hy hm =>
      rw [Text.trim_of_free (Text.free_dash hy.free hm.free)]
      exact .month hy hm
  | openDay hy hm hxs =>
      rw [Text.trim_of_free (Text.free_dash hy.free (Text.free_dash hm.free hxs.free))]
      exact .openDay hy hm hxs
  | day hy hm hd hlen hreal =>
      rw [Text.trim_of_free (Text.free_dash hy.free (Text.free_dash hm.free hd.free))]
      exact .day hy hm hd hlen hreal
  | monthDigits hy hm hlow hhigh =>
      rw [Text.trim_of_free (List.forall_mem_append.mpr ⟨hy.free, hm.free⟩)]
      exact .monthDigits hy hm hlow hhigh
  | dayDigits hy hm hd hreal =>
      have hday := List.forall_mem_append.mpr ⟨hm.free, hd.free⟩
      rw [Text.trim_of_free (List.forall_mem_append.mpr ⟨hy.free, hday⟩)]
      exact .dayDigits hy hm hd hreal
  | timestamp hshows =>
      rw [hshows.trim_eq]
      exact .timestamp hshows

/-! ## What names no date -/

/-- Texts in the form of a date in which the part of the month is no month, or the day does not
exist in its month; a timestamp is one with more text behind its day. -/
inductive Unreal : List Char → Prop
  | month {y part : List Char} {n : Nat} : IsDigits 4 y n → '-' ∉ part → ¬ IsOpen part →
      (∀ m, ¬ IsMonth part m) → Unreal (y ++ '-' :: part)
  | monthBefore {y part : List Char} {n : Nat} (rest : List Char) : IsDigits 4 y n → '-' ∉ part →
      ¬ IsOpen part → (∀ m, ¬ IsMonth part m) → Unreal (y ++ '-' :: (part ++ '-' :: rest))
  | monthDigits {y part : List Char} {n m : Nat} : IsDigits 4 y n → IsDigits 2 part m →
      ¬ (1 ≤ m ∧ m ≤ 12) → Unreal (y ++ part)
  | day {y part day rest : List Char} {n m k : Nat} : IsDigits 4 y n → IsMonth part m →
      IsNumeral day k → Calendar.isDate n m k = false →
      (∀ c, rest.head? = some c → c.isDigit = false) →
      Unreal (y ++ '-' :: (part ++ '-' :: (day ++ rest)))
  | dayDigits {y part day : List Char} {n m k : Nat} : IsDigits 4 y n → IsDigits 2 part m →
      IsDigits 2 day k → Calendar.isDate n m k = false → Unreal (y ++ (part ++ day))

theorem IsMonth.of_isDigits (h : IsDigits 2 part m) (hreal : Calendar.isDate n m k = true) :
    IsMonth part m :=
  have hbounds := Calendar.bounds_of_isDate hreal
  .number h.toIsNumeral (Nat.le_of_eq h.length_eq) hbounds.1 hbounds.2.1

theorem month?_eq_none (h : ∀ m, ¬ IsMonth part m) : month? part = none :=
  Option.eq_none_iff_forall_ne_some.mpr fun m hm => h m (month?_eq_some_iff.mp hm)

/-- No text is read whose second part is neither open nor a month. -/
theorem parse?_of_no_month {y : List Char} {parts : List (List Char)}
    (ht : Text.trim s.toList = t) (hsplit : Text.split '-' t = y :: part :: parts)
    (hdash : '-' ∈ t) (hopen : ¬ IsOpen part) (hmonth : ∀ m, ¬ IsMonth part m) :
    parse? s = none := by
  rw [parse?_of_dash ht hdash ?_, hsplit]
  · exact ofParts?_of_month?_eq_none hopen (month?_eq_none hmonth) parts
  · intro n m k hshows
    obtain ⟨_, _, _, _, _, _, -, hm, -, hreal, -, hsplit'⟩ := hshows.exists_split
    rw [hsplit] at hsplit'
    cases hsplit'
    exact hmonth m (.of_isDigits hm hreal)

/-- No text is read whose third part begins with a day that does not exist. -/
theorem parse?_of_no_day {y p : List Char} {parts : List (List Char)}
    (ht : Text.trim s.toList = t) (hsplit : Text.split '-' t = y :: part :: (day ++ p) :: parts)
    (hdash : '-' ∈ t) (hy : IsDigits 4 y n) (hm : IsMonth part m) (hd : IsNumeral day k)
    (hreal : Calendar.isDate n m k = false) (hp : ∀ c, p.head? = some c → c.isDigit = false) :
    parse? s = none := by
  rw [parse?_of_dash ht hdash ?_, hsplit]
  · apply Option.eq_none_iff_forall_ne_some.mpr
    intro d h
    obtain ⟨n', m', k', hy', hm', hd', -, hreal'⟩ :=
      ofParts?_day_eq_some hm.not_isOpen (not_isOpen_append hd p) h
    have hnil : p = [] := by
      cases p with
      | nil => rfl
      | cons c p =>
          have hc := hd'.digits c (by simp)
          rw [hp c rfl] at hc
          cases hc
    rw [hnil, List.append_nil] at hd'
    rw [hy.unique hy'.toIsNumeral, hm.unique hm', hd.unique hd', hreal'] at hreal
    cases hreal
  · intro n' m' k' hshows
    obtain ⟨y', part', day', mark, p', ps, hy', hm', hd', hreal', hmark, hsplit'⟩ :=
      hshows.exists_split
    rw [hsplit] at hsplit'
    obtain ⟨rfl, rfl, hthird, -⟩ : y = y' ∧ part = part' ∧ day ++ p = day' ++ mark :: p' ∧
        parts = ps := by
      simpa using hsplit'
    -- The day is the digits in front, on both sides.
    have hday : day = day' := by
      rw [← takeWhile_append_stop hd.digits hp, hthird]
      exact takeWhile_append_stop hd'.digits (by rintro _ ⟨⟩; exact hmark)
    rw [hy.unique hy'.toIsNumeral, hm.unique (.of_isDigits hm' hreal'),
      hd.unique (hday ▸ hd'.toIsNumeral), hreal'] at hreal
    cases hreal

theorem Unreal.parse?_eq_none (h : Unreal (Text.trim s.toList)) : parse? s = none := by
  generalize ht : Text.trim s.toList = t at h
  cases h with
  | @month y part _ hy hfree hopen hmonth =>
      have hsplit := Text.split_append_cons hy.not_dash part
      rw [Text.split_of_not_mem hfree] at hsplit
      exact parse?_of_no_month ht hsplit (by simp) hopen hmonth
  | @monthBefore y part _ rest hy hfree hopen hmonth =>
      have hsplit := Text.split_append_cons hy.not_dash (part ++ '-' :: rest)
      rw [Text.split_append_cons hfree] at hsplit
      exact parse?_of_no_month ht hsplit (by simp) hopen hmonth
  | monthDigits hy hm hbounds =>
      have hdigits := List.forall_mem_append.mpr ⟨hy.digits, hm.digits⟩
      rw [parse?_of_digits ht (by simp [hy.ne_nil]) hdigits, ofDigits?_month hy hm,
        month?_eq_none, Option.map_none]
      intro m' hm'
      obtain ⟨hnum, -, hlow, hhigh⟩ := hm'.of_digits hm.digits
      exact hbounds (hm.unique hnum ▸ ⟨hlow, hhigh⟩)
  | day hy hm hd hreal hrest =>
      rename_i y part day rest n m k
      obtain ⟨p, ps, hps⟩ := List.exists_cons_of_ne_nil (Text.split_ne_nil '-' rest)
      have hsplit := Text.split_append_cons hy.not_dash (part ++ '-' :: (day ++ rest))
      rw [Text.split_append_cons hm.not_dash, Text.split_append hd.not_dash hps] at hsplit
      exact parse?_of_no_day ht hsplit (by simp) hy hm hd hreal
        fun c hc => hrest c (Text.head?_of_split hps hc)
  | dayDigits hy hm hd hreal =>
      have hdigits := List.forall_mem_append.mpr
        ⟨hy.digits, List.forall_mem_append.mpr ⟨hm.digits, hd.digits⟩⟩
      rw [parse?_of_digits ht (by simp [hy.ne_nil]) hdigits, ofDigits?_day hy hm hd]
      apply Option.eq_none_iff_forall_ne_some.mpr
      intro d h
      rw [(full?_eq_some_iff.mp h).1] at hreal
      cases hreal

/-! ## All notations -/

/-- Whatever spells a date is read as this date, with blanks around it or not: with the month as a
number or by its name, the month and the day with or without zeros in front, in digits only, or in
a timestamp. A text whose month is no month, or whose day its month does not have, is not read. -/
theorem notations_agree :
    (∀ (lead t tail : List Char) (d : PartialDate), Spells t d →
      (∀ c ∈ lead, Text.isBlank c = true) → (∀ c ∈ tail, Text.isBlank c = true) →
      parse? (String.ofList (lead ++ t ++ tail)) = some d) ∧
    (∀ s : String, Unreal (Text.trim s.toList) → parse? s = none) := by
  constructor
  · intro lead t tail d h hlead htail
    apply Spells.parse?_eq
    rw [String.toList_ofList, Text.trim_blanks_around hlead htail]
    exact h.trim
  · intro s h
    exact h.parse?_eq_none

/-- The leap day of a year, with blanks around it and on a clock, a year without one, and a name
that is not cut to three letters. -/
theorem notations_agree_leapDay :
    parse? " 2008-fEB-29\t" = some ⟨2008, some 2, some 29⟩ ∧
    parse? "2008-02-29t23:59:60.25-01:30" = some ⟨2008, some 2, some 29⟩ ∧
    parse? "2007-02-29T23:59:60Z" = none ∧
    parse? "2008-Febr-29" = none := by
  have digits {k : Nat} {part : List Char} {n : Nat} (h : Text.natural? part = some n)
      (hlen : part.length = k) : IsDigits k part n := ⟨Text.natural?_eq_some_iff.mp h, hlen⟩
  have hleap : IsDigits 4 ['2', '0', '0', '8'] 2008 := digits rfl rfl
  have hyear : IsDigits 4 ['2', '0', '0', '7'] 2007 := digits rfl rfl
  have htwo : IsDigits 2 ['0', '2'] 2 := digits rfl rfl
  have hday : IsDigits 2 ['2', '9'] 29 := digits rfl rfl
  have hspelled : Spells "2008-fEB-29".toList ⟨2008, some 2, some 29⟩ := by
    have hname : IsMonth ['f', 'E', 'B'] 2 := month?_eq_some_iff.mp rfl
    exact .day hleap hname hday.toIsNumeral (by decide) (by decide)
  have hshown : Spells "2008-02-29t23:59:60.25-01:30".toList ⟨2008, some 2, some 29⟩ := by
    have hhour : IsDigits 2 ['2', '3'] 23 := digits rfl rfl
    have hminute : IsDigits 2 ['5', '9'] 59 := digits rfl rfl
    have hsecond : IsDigits 2 ['6', '0'] 60 := digits rfl rfl
    have hhours : IsDigits 2 ['0', '1'] 1 := digits rfl rfl
    have hminutes : IsDigits 2 ['3', '0'] 30 := digits rfl rfl
    have hoffset : Timestamp.IsOffset "-01:30".toList :=
      .signed (.inr (.inl rfl)) (.intro hhours (by decide) hminutes (by decide))
    exact .timestamp (.intro hleap htwo hday (by decide)
      (.intro (.inr (.inl rfl)) hhour (by decide) hminute (by decide) hsecond (by decide)
        (.digits ['2', '5'] (by decide) (forall_mem_of_all rfl)) hoffset))
  have hmissing : Unreal "2007-02-29T23:59:60Z".toList := by
    have hmonth : IsMonth ['0', '2'] 2 := month?_eq_some_iff.mp rfl
    have hclock : ∀ c, "T23:59:60Z".toList.head? = some c → c.isDigit = false := by
      rintro _ ⟨⟩
      rfl
    exact .day hyear hmonth hday.toIsNumeral (by decide) hclock
  have hmisnamed : Unreal "2008-Febr-29".toList := by
    have hopen : ¬ IsOpen ['F', 'e', 'b', 'r'] := fun h => absurd (isOpen_iff.mpr h) (by decide)
    have hmonth : ∀ m, ¬ IsMonth ['F', 'e', 'b', 'r'] m :=
      fun m hm => absurd (month?_eq_some_iff.mpr hm) nofun
    exact .monthBefore ['2', '9'] hleap (by decide) hopen hmonth
  obtain ⟨hread, hrefused⟩ := notations_agree
  refine ⟨?_, ?_, ?_, ?_⟩
  · exact hread [' '] "2008-fEB-29".toList ['\t'] _ hspelled
      (List.forall_mem_singleton.mpr rfl) (List.forall_mem_singleton.mpr rfl)
  · exact hread [] "2008-02-29t23:59:60.25-01:30".toList [] _ hshown nofun nofun
  · exact hrefused _ hmissing
  · exact hrefused _ hmisnamed

end PartialDate

end Holdings
