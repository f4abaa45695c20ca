import Holdings.Proofs.Canonical
/-!
# Numbers in a text

A book number is found in a text where its digits stand, with at most one hyphen or space between
two of them. What is found are segments of the text, one after the other, and each of them writes a
number. The other way round, a text that lists numbers is read as that list. The one doubtful case
is a short number that starts like a long one: a long number would need three characters more than
there are before the next separator, so the long form fails and the short one is taken
(`Isbn.length?_of_writes`).
-/

namespace Holdings

/-! ## Segments of a text -/

/-- Parts of a text in their order that do not overlap. -/
inductive Text.Segments : List Char → List (List Char) → Prop
  | none (s : List Char) : Segments s []
  | next (before segment : List Char) {rest : List Char} {segments : List (List Char)}
      (h : Segments rest segments) : Segments (before ++ (segment ++ rest)) (segment :: segments)

theorem Text.Segments.cons {s : List Char} {segments : List (List Char)} (h : Segments s segments)
    (c : Char) : Segments (c :: s) segments := by
  cases h with
  | none => exact .none _
  | next before segment h => exact .next (c :: before) segment h

/-! ## Characters between numbers -/

namespace Text

theorem isWord_of_mem_ranges {c : Char} {a b : Nat} (h : (a, b) ∈ wordRanges) (ha : a ≤ c.toNat)
    (hb : c.toNat ≤ b) : isWord c = true :=
  List.any_eq_true.mpr ⟨(a, b), h, by simp [ha, hb]⟩

/-- The digits and ASCII letters are word characters. -/
theorem isWord_of_ascii {c : Char} (h : (48 ≤ c.toNat ∧ c.toNat ≤ 57) ∨
    (65 ≤ c.toNat ∧ c.toNat ≤ 90) ∨ (97 ≤ c.toNat ∧ c.toNat ≤ 122)) : isWord c = true := by
  have hfirst : ∀ r ∈ [(0x30, 0x39), (0x41, 0x5A), (0x5F, 0x5F), (0x61, 0x7A)], r ∈ wordRanges := by
    intro r hr
    have hmem : r ∈ wordRangesFirst := List.IsPrefix.subset ⟨wordRangesFirst.drop 4, rfl⟩ hr
    exact List.mem_append_left _ (List.mem_append_left _ (List.mem_append_left _ hmem))
  rcases h with ⟨ha, hb⟩ | ⟨ha, hb⟩ | ⟨ha, hb⟩
  · exact isWord_of_mem_ranges (hfirst (0x30, 0x39) (by simp)) ha hb
  · exact isWord_of_mem_ranges (hfirst (0x41, 0x5A) (by simp)) ha hb
  · exact isWord_of_mem_ranges (hfirst (0x61, 0x7A) (by simp)) ha hb

end Text

namespace Isbn

/-- A character that may stand between two numbers: no word character, and neither the hyphen nor
the space that may stand inside of one. -/
def Separates (c : Char) : Prop := Text.isWord c = false ∧ c ≠ '-' ∧ c ≠ ' '

theorem Separates.isDigit_eq {c : Char} (h : Separates c) : c.isDigit = false := by
  rw [Bool.eq_false_iff]
  intro hd
  have hword := Text.isWord_of_ascii (.inl (toNat_of_isDigit hd))
  rw [h.1] at hword
  cases hword

theorem Separates.toUpper_eq {c : Char} (h : Separates c) : c.toUpper = c := by
  refine toUpper_eq_self fun hlow => ?_
  have hword := Text.isWord_of_ascii (.inr (.inr hlow))
  rw [h.1] at hword
  cases hword

/-- A text after a number: it is at its end, or a separator comes first. -/
def Ends (s : List Char) : Prop := ∀ c, s.head? = some c → Separates c

theorem ends_nil : Ends [] := by
  intro c h
  cases h

/-! ## Written numbers -/

/-- A book number in compact form. -/
inductive IsNumber : List Char → Prop
  | short {n : List Char} (h : Checked 9 n) : IsNumber n
  | long {p : Char} {n : List Char} (hp : p = '8' ∨ p = '9') (h : Checked 9 n) :
      IsNumber ('9' :: '7' :: p :: n)

/-- Characters with at most one hyphen or space between two of them. The last one may be written
small. -/
inductive Spaced : List Char → List Char → Prop
  | last {c d : Char} (h : d.toUpper = c) : Spaced [c] [d]
  | close {c : Char} {n s : List Char} (h : Spaced n s) : Spaced (c :: n) (c :: s)
  | apart {c sep : Char} {n s : List Char} (hsep : sep = '-' ∨ sep = ' ') (h : Spaced n s) :
      Spaced (c :: n) (c :: sep :: s)

/-- A book number and a text that writes it. The three digits in front of a long number stand
together. -/
inductive Writes : List Char → List Char → Prop
  | short {n s : List Char} (hn : Checked 9 n) (h : Spaced n s) : Writes n s
  | long {p : Char} {n s : List Char} (hp : p = '8' ∨ p = '9') (hn : Checked 9 n)
      (h : Spaced (p :: n) s) : Writes ('9' :: '7' :: p :: n) ('9' :: '7' :: s)

/-- Numbers and a text that lists them, with separators between two of them. -/
inductive Lists : List (List Char) → List Char → Prop
  | none : Lists [] []
  | one {n s : List Char} (h : Writes n s) : Lists [n] s
  | more {n m s sep rest : List Char} {ns : List (List Char)} (h : Writes n s) (hne : sep ≠ [])
      (hsep : ∀ c ∈ sep, Separates c) (hrest : Lists (m :: ns) rest) :
      Lists (n :: m :: ns) (s ++ (sep ++ rest))

theorem Writes.isNumber {n s : List Char} (h : Writes n s) : IsNumber n := by
  cases h with
  | short hn _ => exact .short hn
  | long hp hn _ => exact .long hp hn

section

variable {k : Nat} {n s u : List Char}

/-- A character that a number begins with counts, and it is a capital. -/
theorem counts_head {c : Char} (hn : Checked k (c :: n)) :
    Issn.counts c = true ∧ c.toUpper = c := by
  cases hn with
  | check hc => exact Issn.counts_of_check hc
  | digit hc _ => exact Issn.counts_of_check (.inl hc)

/-- What is written is the number again, without the hyphens and spaces and in capitals. -/
theorem squeeze_spaced (hn : Checked k n) (h : Spaced n s) : Issn.squeeze s = n := by
  induction hn generalizing s with
  | @check c hc =>
      cases h with
      | @last _ d hd =>
          have hcounts : Issn.counts d = true := by
            rw [← Issn.counts_toUpper, hd, (Issn.counts_of_check hc).1]
          rw [Issn.squeeze_eq, List.filter_cons_of_pos hcounts, List.map_cons, hd]
          rfl
      | close h => cases h
      | apart _ h => cases h
  | @digit c _ _ hc hn ih =>
      obtain ⟨hcounts, hupper⟩ := Issn.counts_of_check (.inl hc)
      cases h with
      | last _ => cases hn
      | close h =>
          rw [Issn.squeeze_eq, List.filter_cons_of_pos hcounts, List.map_cons, hupper,
            ← Issn.squeeze_eq, ih h]
      | @apart _ sep _ _ hsep h =>
          have hidle : Issn.counts sep = false := by rcases hsep with rfl | rfl <;> decide
          rw [Issn.squeeze_eq, List.filter_cons_of_pos hcounts,
            List.filter_cons_of_neg (by rw [hidle]; decide), List.map_cons, hupper,
            ← Issn.squeeze_eq, ih h]

theorem squeeze_writes (h : Writes n s) : Issn.squeeze s = n := by
  cases h with
  | short hn h => exact squeeze_spaced hn h
  | @long p _ s hp hn h =>
      have hdigit : p.isDigit = true := by rcases hp with rfl | rfl <;> decide
      have hrest := squeeze_spaced (.digit hdigit hn) h
      have hnine : Issn.counts '9' = true := by decide
      have hseven : Issn.counts '7' = true := by decide
      rw [Issn.squeeze_eq, List.filter_cons_of_pos hnine, List.filter_cons_of_pos hseven,
        List.map_cons, List.map_cons, ← Issn.squeeze_eq, hrest]
      rfl

/-! ## Reading what is written -/

theorem skipSeparator_of_head (h : ∀ c, s.head? = some c → c ≠ '-' ∧ c ≠ ' ') :
    skipSeparator s = s := by
  cases s with
  | nil => rfl
  | cons c s =>
      obtain ⟨hdash, hspace⟩ := h c rfl
      rw [skipSeparator, if_neg (by simp [hdash, hspace])]

theorem skipSeparator_ends (hu : Ends u) : skipSeparator u = u :=
  skipSeparator_of_head fun c hc => (hu c hc).2

theorem skipSeparator_spaced (hn : Checked k n) (h : Spaced n s) (u : List Char) :
    skipSeparator (s.map Char.toUpper ++ u) = s.map Char.toUpper ++ u := by
  have hhead : ∀ c, Issn.counts c = true → c ≠ '-' ∧ c ≠ ' ' := by
    intro c hc
    constructor <;> rintro rfl <;> exact absurd hc (by decide)
  refine skipSeparator_of_head fun c hc => hhead c ?_
  cases h with
  | last hd =>
      cases hc
      rw [hd]
      exact (counts_head hn).1
  | close _ | apart _ _ =>
      cases hc
      rw [Issn.counts_toUpper]
      exact (counts_head hn).1

theorem skipSeparator_apart {sep : Char} (hsep : sep = '-' ∨ sep = ' ') (u : List Char) :
    skipSeparator (sep.toUpper :: u) = u := by
  rcases hsep with rfl | rfl <;> rfl

/-- The digits of a number are read one by one, and what is asked for beyond them is asked of the
check character and what comes after it. -/
theorem digits?_spaced (hn : Checked k n) (h : Spaced n s) (u : List Char) :
    ∃ c, Issn.isCheck c = true ∧
      ∀ j, digits? (k + j) (s.map Char.toUpper ++ u) = digits? j (c :: u) := by
  induction hn generalizing s with
  | @check c hc =>
      cases h with
      | last hd =>
          refine ⟨c, by simpa [Issn.isCheck] using hc, fun j => ?_⟩
          rw [Nat.zero_add, List.map_cons, hd]
          rfl
      | close h => cases h
      | apart _ h => cases h
  | @digit c k n hc hn ih =>
      have hupper := (Issn.counts_of_check (.inl hc)).2
      cases h with
      | last _ => cases hn
      | close h =>
          obtain ⟨check, hcheck, hread⟩ := ih h
          refine ⟨check, hcheck, fun j => ?_⟩
          rw [Nat.add_right_comm, List.map_cons, List.cons_append, hupper, digits?, if_pos hc,
            skipSeparator_spaced hn h, hread]
      | apart hsep h =>
          obtain ⟨check, hcheck, hread⟩ := ih h
          refine ⟨check, hcheck, fun j => ?_⟩
          rw [Nat.add_right_comm, List.map_cons, List.map_cons, List.cons_append, List.cons_append,
            hupper, digits?, if_pos hc, skipSeparator_apart hsep, hread]

theorem digits?_ends (hu : Ends u) (j : Nat) : digits? (j + 1) u = none := by
  cases u with
  | nil => rfl
  | cons c u => rw [digits?, if_neg (by rw [(hu c rfl).isDigit_eq]; decide)]

theorem short?_spaced (hn : Checked 9 n) (h : Spaced n s) (hu : Ends u) :
    short? (s.map Char.toUpper ++ u) = some u := by
  obtain ⟨c, hc, hread⟩ := digits?_spaced hn h u
  have hend : atWordEnd u = true := by
    rw [atWordEnd, Option.all_eq_true]
    intro d hd
    rw [(hu d hd).1]
    rfl
  have hdigits : digits? 9 (s.map Char.toUpper ++ u) = some (c :: u) := hread 0
  simp only [short?, hdigits, hc, hend, Bool.and_self, if_true]

/-- A long number has twelve digits. -/
theorem digits?_of_long? {t : List Char} (h : long? t = some u) :
    ∃ c, digits? 12 t = some (c :: u) := by
  unfold long? at h
  split at h
  · next p t =>
    split at h
    · next hp =>
      have hread : digits? 12 ('9' :: '7' :: p :: t) = digits? 9 (skipSeparator t) := by
        rcases hp with rfl | rfl <;> rfl
      rw [hread]
      unfold short? at h
      split at h
      · next c rest hdigits =>
        split at h
        · exact ⟨c, Option.some.inj h ▸ hdigits⟩
        · cases h
      · cases h
    · cases h
  · cases h

/-- A short number is no long one, also if it starts like one. -/
theorem long?_spaced (hn : Checked 9 n) (h : Spaced n s) (hu : Ends u) :
    long? (s.map Char.toUpper ++ u) = none := by
  cases hlong : long? (s.map Char.toUpper ++ u) with
  | none => rfl
  | some rest =>
      obtain ⟨c, hc⟩ := digits?_of_long? hlong
      obtain ⟨check, -, hread⟩ := digits?_spaced hn h u
      have hover : digits? 3 (check :: u) = some (c :: rest) := (hread 3).symm.trans hc
      rw [digits?, skipSeparator_ends hu, digits?_ends hu, ite_self] at hover
      cases hover

theorem length?_of_writes (h : Writes n s) (hu : Ends u) :
    length? (s.map Char.toUpper ++ u) = some s.length := by
  have hlength : (s.map Char.toUpper ++ u).length - u.length = s.length := by simp
  cases h with
  | short hn h =>
      rw [length?, long?_spaced hn h hu, short?_spaced hn h hu, Option.none_or, Option.map_some,
        hlength]
  | @long p n s hp hn h =>
      have hlong : long? (('9' :: '7' :: s).map Char.toUpper ++ u) = some u := by
        have hupper : p.toUpper = p := by rcases hp with rfl | rfl <;> decide
        cases h with
        | last _ => cases hn
        | @close _ _ s h =>
            show long? ('9' :: '7' :: p.toUpper :: (s.map Char.toUpper ++ u)) = some u
            rw [hupper, long?, if_pos hp, skipSeparator_spaced hn h, short?_spaced hn h hu]
        | @apart _ sep _ s hsep h =>
            show long? ('9' :: '7' :: p.toUpper :: sep.toUpper :: (s.map Char.toUpper ++ u)) =
              some u
            rw [hupper, long?, if_pos hp, skipSeparator_apart hsep, short?_spaced hn h hu]
      rw [length?, hlong, Option.some_or, Option.map_some, hlength]

/-! ## What is read is written -/

theorem skipSeparator_cases (s : List Char) :
    s = skipSeparator s ∨ ∃ sep, (sep = '-' ∨ sep = ' ') ∧ s = sep :: skipSeparator s := by
  cases s with
  | nil => exact .inl rfl
  | cons c s =>
      rw [skipSeparator]
      split
      · next hsep => exact .inr ⟨c, hsep, rfl⟩
      · exact .inl rfl

theorem exists_spaced_of_digits? {t : List Char} {c : Char} (h : digits? k t = some (c :: u))
    (hc : Issn.isCheck c = true) : ∃ n s, t = s ++ u ∧ Checked k n ∧ Spaced n s := by
  induction k generalizing t with
  | zero =>
      have hcheck : c.isDigit = true ∨ c = 'X' := by simpa [Issn.isCheck] using hc
      cases h
      exact ⟨[c], [c], rfl, .check hcheck, .last (Issn.counts_of_check hcheck).2⟩
  | succ k ih =>
      cases t with
      | nil => cases h
      | cons d t =>
          rw [digits?] at h
          split at h
          · next hd =>
            obtain ⟨n, s, hs, hn, hspaced⟩ := ih h
            rcases skipSeparator_cases t with ht | ⟨sep, hsep, ht⟩
            · exact ⟨d :: n, d :: s, by rw [ht, hs]; rfl, .digit hd hn, .close hspaced⟩
            · exact ⟨d :: n, d :: sep :: s, by rw [ht, hs]; rfl, .digit hd hn,
                .apart hsep hspaced⟩
          · cases h

theorem exists_spaced_of_short? {t : List Char} (h : short? t = some u) :
    ∃ n s, t = s ++ u ∧ Checked 9 n ∧ Spaced n s := by
  unfold short? at h
  split at h
  · next c rest hdigits =>
    split at h
    · next hend =>
      cases h
      exact exists_spaced_of_digits? hdigits (Bool.and_eq_true_iff.mp hend).1
    · cases h
  · cases h

theorem exists_writes_of_long? {t : List Char} (h : long? t = some u) :
    ∃ n s, t = s ++ u ∧ Writes n s := by
  unfold long? at h
  split at h
  · next p t =>
    split at h
    · next hp =>
      obtain ⟨n, s, hs, hn, hspaced⟩ := exists_spaced_of_short? h
      rcases skipSeparator_cases t with ht | ⟨sep, hsep, ht⟩
      · exact ⟨_, '9' :: '7' :: p :: s, by rw [ht, hs]; rfl, .long hp hn (.close hspaced)⟩
      · exact ⟨_, '9' :: '7' :: p :: sep :: s, by rw [ht, hs]; rfl,
          .long hp hn (.apart hsep hspaced)⟩
    · cases h
  · cases h

/-- What is taken for a number is written as one. -/
theorem exists_writes_of_length? {t : List Char} {m : Nat} (h : length? t = some m) :
    ∃ n s u, t = s ++ u ∧ s.length = m ∧ Writes n s := by
  obtain ⟨u, hu, rfl⟩ := Option.map_eq_some_iff.mp h
  have hwrites : ∃ n s, t = s ++ u ∧ Writes n s := by
    cases hlong : long? t with
    | some rest =>
        rw [hlong, Option.some_or] at hu
        cases hu
        exact exists_writes_of_long? hlong
    | none =>
        rw [hlong, Option.none_or] at hu
        obtain ⟨n, s, hs, hn, hspaced⟩ := exists_spaced_of_short? hu
        exact ⟨n, s, hs, .short hn hspaced⟩
  obtain ⟨n, s, rfl, hs⟩ := hwrites
  exact ⟨n, s, u, rfl, by simp, hs⟩

theorem ne_nil_of_writes (h : Writes n s) : s ≠ [] := by
  cases h with
  | short _ h => cases h <;> exact List.cons_ne_nil _ _
  | long _ _ _ => exact List.cons_ne_nil _ _

end

/-! ## Finding all -/

section

variable {before : Option Char} {t : List Char}

/-- A number that is found is taken, and the search goes on after it. -/
theorem findFrom_of_length? {s u : List Char} (hs : s ≠ [])
    (hb : (before.all fun b => !Text.isWord b) = true) (h : length? (s ++ u) = some s.length) :
    ∃ b, findFrom before (s ++ u) = s :: findFrom (some b) u := by
  cases s with
  | nil => exact absurd rfl hs
  | cons c s =>
      have htake : (c :: (s ++ u)).take (c :: s).length = c :: s := List.take_left' rfl
      have hdrop : (s ++ u).drop ((c :: s).length - 1) = u := List.drop_left' rfl
      rw [List.cons_append] at h ⊢
      rw [findFrom, if_pos hb, h]
      dsimp only
      rw [htake, hdrop, List.getLast?_eq_some_getLast (List.cons_ne_nil c s), Option.some_or]
      exact ⟨_, rfl⟩

theorem length?_eq_none {c : Char} (h : c.isDigit = false) (s : List Char) :
    length? (c :: s) = none := by
  have hlong : long? (c :: s) = none := by
    unfold long?
    split
    · next heq =>
      cases heq
      cases h
    · rfl
  have hshort : short? (c :: s) = none := by
    have hdigits : digits? 9 (c :: s) = none := by rw [digits?, if_neg (by rw [h]; decide)]
    simp only [short?, hdigits]
  rw [length?, hlong, hshort]
  rfl

/-- Nothing is found in separators, and what comes after them is at the edge of a word. -/
theorem findFrom_separators {sep : List Char} (hne : sep ≠ []) (hsep : ∀ c ∈ sep, Separates c)
    (before : Option Char) (t : List Char) :
    ∃ b, Text.isWord b = false ∧ findFrom before (sep ++ t) = findFrom (some b) t := by
  induction sep generalizing before with
  | nil => exact absurd rfl hne
  | cons c sep ih =>
      obtain ⟨hc, hsep'⟩ := List.forall_mem_cons.mp hsep
      have hpass : findFrom before (c :: (sep ++ t)) = findFrom (some c) (sep ++ t) := by
        rw [findFrom, length?_eq_none hc.isDigit_eq, ite_self]
      rw [List.cons_append, hpass]
      cases sep with
      | nil => exact ⟨c, hc.1, rfl⟩
      | cons d sep => exact ih (List.cons_ne_nil d sep) hsep' (some c)

/-- What is found are segments of the text that write numbers. -/
theorem exists_segments (before : Option Char) (t : List Char) :
    Text.Segments t (findFrom before t) ∧ ∀ s ∈ findFrom before t, ∃ n, Writes n s := by
  fun_induction findFrom before t with
  | case1 => exact ⟨.none [], List.forall_mem_nil _⟩
  | case2 before c s m hlength found ih =>
      have hm : length? (c :: s) = some m := by
        split at hlength
        · exact hlength
        · cases hlength
      obtain ⟨n, segment, rest, hsplit, rfl, hwrites⟩ := exists_writes_of_length? hm
      cases segment with
      | nil => exact absurd rfl (ne_nil_of_writes hwrites)
      | cons d segment =>
          rw [List.cons_append] at hsplit
          obtain ⟨rfl, rfl⟩ := List.cons.inj hsplit
          have hfound : found = c :: segment := List.take_left' rfl
          have hrest : (segment ++ rest).drop ((c :: segment).length - 1) = rest :=
            List.drop_left' rfl
          rw [hrest, hfound] at ih ⊢
          exact ⟨.next [] (c :: segment) ih.1, List.forall_mem_cons.mpr ⟨⟨n, hwrites⟩, ih.2⟩⟩
  | case3 before c s _ ih => exact ⟨ih.1.cons c, ih.2⟩

/-- A list of numbers is read as itself. -/
theorem map_squeeze_findFrom {ns : List (List Char)} (h : Lists ns t)
    (hb : (before.all fun b => !Text.isWord b) = true) :
    (findFrom before (t.map Char.toUpper)).map Issn.squeeze = ns := by
  have hsqueeze : ∀ {n s}, Writes n s → Issn.squeeze (s.map Char.toUpper) = n := by
    intro n s hs
    rw [← squeeze_writes hs, Issn.squeeze_map_toUpper]
  have hcount : ∀ {s : List Char}, (s.map Char.toUpper).length = s.length := List.length_map _
  have hne : ∀ {n s}, Writes n s → s.map Char.toUpper ≠ [] :=
    fun hs hnil => ne_nil_of_writes hs (List.map_eq_nil_iff.mp hnil)
  induction h generalizing before with
  | none => rw [List.map_nil, findFrom, List.map_nil]
  | @one n s hs =>
      have hlength := length?_of_writes hs ends_nil
      rw [← hcount] at hlength
      obtain ⟨b, hfind⟩ := findFrom_of_length? (hne hs) hb hlength
      rw [← List.append_nil (s.map Char.toUpper), hfind, findFrom, List.map_singleton, hsqueeze hs]
  | @more n m s sep rest ns hs hsepne hsep hrest ih =>
      have hsame : sep.map Char.toUpper = sep :=
        (List.map_congr_left fun c hc => (hsep c hc).toUpper_eq).trans (List.map_id _)
      have hends : Ends (sep ++ rest.map Char.toUpper) := by
        intro c hc
        cases sep with
        | nil => exact absurd rfl hsepne
        | cons d sep =>
            cases hc
            exact hsep _ List.mem_cons_self
      have hlength := length?_of_writes hs hends
      rw [← hcount] at hlength
      obtain ⟨b, hfind⟩ := findFrom_of_length? (hne hs) hb hlength
      obtain ⟨b', hb', hnext⟩ :=
        findFrom_separators hsepne hsep (some b) (rest.map Char.toUpper)
      have hedge : ((some b').all fun b => !Text.isWord b) = true := by
        rw [Option.all_some, hb']
        rfl
      rw [List.map_append, List.map_append, hsame, hfind, hnext, List.map_cons, ih hedge,
        hsqueeze hs]

end

/-- Finding numbers. What is found in a text are numbers in compact form, which no normalization
changes, and they are those of segments of the text in capitals, which come in their order and do
not overlap. And in a text that lists numbers, exactly these are found. -/
theorem findAll_segments :
    (∀ text : List Char,
      (∀ n ∈ findAll text, IsNumber n ∧ normalize (String.ofList n) = String.ofList n) ∧
      ∃ segments, Text.Segments (text.map Char.toUpper) segments ∧
        findAll text = segments.map Issn.squeeze) ∧
    ∀ (ns : List (List Char)) (text : List Char), Lists ns text → findAll text = ns := by
  refine ⟨fun text => ?_, fun ns text h => map_squeeze_findFrom h rfl⟩
  obtain ⟨hsegments, hwrites⟩ := exists_segments none (text.map Char.toUpper)
  refine ⟨fun n hn => ?_, _, hsegments, rfl⟩
  obtain ⟨s, hs, rfl⟩ := List.mem_map.mp hn
  obtain ⟨n, hn⟩ := hwrites s hs
  refine ⟨squeeze_writes hn ▸ hn.isNumber, ?_⟩
  rw [normalize, String.toList_ofList, Issn.squeeze_squeeze]

/-- A short number that starts like a long one, and a long number with hyphens. -/
def shortAndLong : List Char :=
  "978123456x".toList ++ (";".toList ++ "978-3-16-148410-0".toList)

theorem lists_shortAndLong :
    Lists ["978123456X".toList, "9783161484100".toList] shortAndLong := by
  have hfirst : Writes "978123456X".toList "978123456x".toList :=
    .short (by decide) (.close (.close (.close (.close (.close (.close (.close (.close (.close
      (.last (by decide)))))))))))
  have hsecond : Writes "9783161484100".toList "978-3-16-148410-0".toList := by
    have hspaced : Spaced "83161484100".toList "8-3-16-148410-0".toList :=
      .apart (.inl rfl) (.apart (.inl rfl) (.close (.apart (.inl rfl) (.close (.close (.close
        (.close (.close (.apart (.inl rfl) (.last (by decide)))))))))))
    exact .long (.inl rfl) (by decide) hspaced
  have hsep : ∀ c ∈ ";".toList, Separates c :=
    List.forall_mem_singleton.mpr ⟨by decide +kernel, by decide, by decide⟩
  exact .more hfirst (by decide) hsep (.one hsecond)

theorem findAll_segments_shortAndLong :
    Lists ["978123456X".toList, "9783161484100".toList] shortAndLong ∧
      findAll shortAndLong = ["978123456X".toList, "9783161484100".toList] :=
  ⟨lists_shortAndLong, findAll_segments.2 _ _ lists_shortAndLong⟩

end Isbn

end Holdings
