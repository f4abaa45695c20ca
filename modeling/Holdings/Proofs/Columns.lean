import Mathlib.Data.List.TakeWhile
import Holdings.Format.Kbart
import Holdings.Proofs.Identifiers
import Holdings.Proofs.Utf8
import Holdings.Text.Split
/-!
# Tables that are written

A table of a heading and one line is read as the two rows that it was written from
(`Rows.rows_written`), and the cells of a line as its fields, provided that no cell has a tab or a
line break in it. Everything is written in characters and read in bytes; the bytes that count here
are those of single characters. So what a line with serial numbers grants is what its cells say
(`Kbart.survey_written`).
-/

namespace Holdings

/-! ## Lists -/

/-- What a test says of all elements. A quantifier over bytes or characters by itself would be
decided by going through all of these. -/
theorem forall_mem_of_all {α : Type} {as : List α} {p : α → Prop} [DecidablePred p]
    (h : (as.all fun a => decide (p a)) = true) : ∀ a ∈ as, p a :=
  fun a ha => of_decide_eq_true (List.all_eq_true.mp h a ha)

theorem takeWhile_append_stop {α : Type} {p : α → Bool} {as bs : List α}
    (h : ∀ a ∈ as, p a = true) (hb : ∀ b, bs.head? = some b → p b = false) :
    (as ++ bs).takeWhile p = as := by
  rw [List.takeWhile_append_of_pos h]
  cases bs with
  | nil => exact List.append_nil as
  | cons b bs => simp [hb b rfl]

theorem dropWhile_append_stop {α : Type} {p : α → Bool} {as bs : List α}
    (h : ∀ a ∈ as, p a = true) (hb : ∀ b, bs.head? = some b → p b = false) :
    (as ++ bs).dropWhile p = bs := by
  rw [List.dropWhile_append_of_pos h]
  cases bs with
  | nil => rfl
  | cons b bs => simp [hb b rfl]

namespace Rows

open Text.Utf8

/-! ## Fields -/

theorem fields_of_not_mem {bs : List UInt8} (h : 9 ∉ bs) : fields bs = [bs] := by
  induction bs with
  | nil => rfl
  | cons b bs ih =>
      have hb : b ≠ 9 := fun he => h (he ▸ List.mem_cons_self)
      rw [fields, if_neg hb, ih fun hm => h (List.mem_cons_of_mem _ hm)]

theorem fields_append {bs rest : List UInt8} (h : 9 ∉ bs) :
    fields (bs ++ 9 :: rest) = bs :: fields rest := by
  induction bs with
  | nil => rw [List.nil_append, fields, if_pos rfl]
  | cons b bs ih =>
      have hb : b ≠ 9 := fun he => h (he ▸ List.mem_cons_self)
      rw [List.cons_append, fields, if_neg hb, ih fun hm => h (List.mem_cons_of_mem _ hm)]

theorem not_mem_encode {s : List Char} {c : Char} (hc : c.toNat ≤ 0x7F) (h : c ∉ s) :
    UInt8.ofNat c.toNat ∉ encode s := by
  intro hm
  have hn := toNat_ofNat (n := c.toNat) (by omega)
  obtain ⟨d, hd, he⟩ := mem_encode_ascii (by omega) hm
  rw [hn] at he
  exact h (Char.toNat_inj.mp he ▸ hd)

/-- The cells of a line are its fields. -/
theorem fields_encode_join {cells : List (List Char)} (hne : cells ≠ [])
    (h : ∀ cell ∈ cells, '\t' ∉ cell) :
    fields (encode (Text.join ['\t'] cells)) = cells.map encode := by
  induction cells with
  | nil => exact absurd rfl hne
  | cons cell cells ih =>
      have hcell : 9 ∉ encode cell :=
        not_mem_encode (c := '\t') (by decide) (h cell List.mem_cons_self)
      cases cells with
      | nil => exact fields_of_not_mem hcell
      | cons next cells =>
          have hrest := ih (List.cons_ne_nil _ _) fun c hc => h c (List.mem_cons_of_mem _ hc)
          show fields (encode (cell ++ ['\t'] ++ Text.join ['\t'] (next :: cells))) = _
          rw [List.append_assoc, encode_append, encode_append]
          show fields (encode cell ++ 9 :: encode (Text.join ['\t'] (next :: cells))) = _
          rw [fields_append hcell, hrest]
          rfl

/-! ## Rows -/

/-- Whether a character ends a row. -/
def isBreak (c : Char) : Bool := c = '\n' || c = '\r'

theorem isEnding_of_mem_encode {s : List Char} (h : ∀ c ∈ s, isBreak c = true) :
    ∀ b ∈ encode s, isEnding b = true := by
  intro b hb
  obtain ⟨c, hc, hm⟩ := List.mem_flatMap.mp hb
  have hbreak := h c hc
  simp only [isBreak, Bool.or_eq_true, decide_eq_true_eq] at hbreak
  rcases hbreak with rfl | rfl
  · rw [List.mem_singleton.mp hm]
    rfl
  · rw [List.mem_singleton.mp hm]
    rfl

theorem not_isEnding_of_mem_encode {s : List Char} (h : ∀ c ∈ s, isBreak c = false) :
    ∀ b ∈ encode s, isEnding b = false := by
  intro b hb
  have hnot : ∀ c, isBreak c = true → c ∉ s := fun c hc hm => by
    rw [h c hm] at hc
    cases hc
  have h10 : 10 ∉ encode s := not_mem_encode (c := '\n') (by decide) (hnot _ rfl)
  have h13 : 13 ∉ encode s := not_mem_encode (c := '\r') (by decide) (hnot _ rfl)
  simp only [isEnding, Bool.or_eq_false_iff, decide_eq_false_iff_not]
  exact ⟨fun he => h10 (he ▸ hb), fun he => h13 (he ▸ hb)⟩

theorem rowsFrom_endings {ends : List UInt8} (line : Nat) (h : ∀ b ∈ ends, isEnding b = true) :
    rowsFrom line ends = [] := by
  have hd : ends.dropWhile isEnding = [] := List.dropWhile_eq_nil_iff.mpr h
  rw [rowsFrom]
  split
  · rfl
  · next hb => rw [hd] at hb; cases hb

/-- The first row is what stands between the breaks in front of it and the next one. The line on
which the next row starts counts the line feeds up to the end of this one. -/
theorem rowsFrom_append {ends body rest : List UInt8} (line : Nat)
    (hends : ∀ b ∈ ends, isEnding b = true) (hne : body ≠ [])
    (hbody : ∀ b ∈ body, isEnding b = false)
    (hrest : ∀ b, rest.head? = some b → isEnding b = true) :
    rowsFrom line (ends ++ (body ++ rest)) =
      ⟨line, fields body⟩ ::
        rowsFrom (line + lineFeeds ends + lineFeeds (rest.take 1)) (rest.drop 1) := by
  have hhead : ∀ b, (body ++ rest).head? = some b → isEnding b = false := by
    intro b hb
    cases body with
    | nil => exact absurd rfl hne
    | cons c body => exact hbody b (Option.some.inj hb ▸ List.mem_cons_self)
  have hstart : (ends ++ (body ++ rest)).dropWhile isEnding = body ++ rest :=
    dropWhile_append_stop hends hhead
  have hpassed : (ends ++ (body ++ rest)).takeWhile isEnding = ends :=
    takeWhile_append_stop hends hhead
  have hstop : ∀ b, rest.head? = some b → (!isEnding b) = false := by
    intro b hb
    rw [hrest b hb]
    rfl
  have hbody' : ∀ b ∈ body, (!isEnding b) = true := by
    intro b hb
    rw [hbody b hb]
    rfl
  have htake : (body ++ rest).takeWhile (fun c => !isEnding c) = body :=
    takeWhile_append_stop hbody' hstop
  have hdrop : (body ++ rest).dropWhile (fun c => !isEnding c) = rest :=
    dropWhile_append_stop hbody' hstop
  rw [rowsFrom]
  split
  · next hnil =>
    rw [hstart] at hnil
    exact absurd (List.append_eq_nil_iff.mp hnil).1 hne
  · next b tail hcons =>
    rw [hstart] at hcons
    simp only [← hcons, htake, hdrop, hpassed]

theorem exists_rowsFrom {ends body rest : List UInt8} (line : Nat)
    (hends : ∀ b ∈ ends, isEnding b = true) (hne : body ≠ [])
    (hbody : ∀ b ∈ body, isEnding b = false)
    (hrest : ∀ b, rest.head? = some b → isEnding b = true) :
    ∃ next, rowsFrom line (ends ++ (body ++ rest)) =
      ⟨line, fields body⟩ :: rowsFrom next (rest.drop 1) :=
  ⟨_, rowsFrom_append line hends hne hbody hrest⟩

/-- No text but one that starts with the byte order mark is written with the bytes of the mark in
front. -/
theorem withoutMark_encode {c : Char} {s : List Char} (h : c ≠ '\uFEFF') :
    withoutMark (encode (c :: s)) = encode (c :: s) := by
  unfold withoutMark
  split
  · next bs hbs =>
    have hp := pieces_encode (c :: s)
    have hmark : piece 0xEF (0xBB :: 0xBF :: bs) = (some '\uFEFF', bs) := rfl
    rw [hbs, pieces, hmark, List.map_cons] at hp
    exact absurd (Option.some.inj (List.cons.inj hp).1).symm h
  · rfl

/-- What stands around the line of a table: a heading, the breaks after it, and those at the end. -/
structure Table where
  heading : List Char
  between : List Char
  after : List Char

/-- The characters of a table with one line. -/
def Table.write (t : Table) (line : List Char) : List Char :=
  t.heading ++ (t.between ++ (line ++ t.after))

/-- The heading is not empty and has no breaks in it, and there are breaks after it. No byte order
mark stands in front. -/
structure Table.Fits (t : Table) : Prop where
  heading_ne : t.heading ≠ []
  heading_free : ∀ c ∈ t.heading, isBreak c = false
  unmarked : t.heading.head? ≠ some '\uFEFF'
  between_ne : t.between ≠ []
  between_breaks : ∀ c ∈ t.between, isBreak c = true
  after_breaks : ∀ c ∈ t.after, isBreak c = true

/-- A table is read as its heading and its line, if there is no break in the line. -/
theorem rows_written {t : Table} {line : List Char} (h : t.Fits) (hne : line ≠ [])
    (hline : ∀ c ∈ line, isBreak c = false) :
    ∃ number, rows (encode (t.write line)) =
      [⟨1, fields (encode t.heading)⟩, ⟨number, fields (encode line)⟩] := by
  obtain ⟨c, heading, hheading⟩ := List.exists_cons_of_ne_nil h.heading_ne
  have hmark : withoutMark (encode (t.write line)) = encode (t.write line) := by
    have hc : c ≠ '\uFEFF' := by
      intro he
      apply h.unmarked
      rw [hheading, he]
      rfl
    rw [Table.write, hheading, List.cons_append]
    exact withoutMark_encode hc
  have hbetween := isEnding_of_mem_encode h.between_breaks
  have hafter := isEnding_of_mem_encode h.after_breaks
  have hhead : ∀ b, (encode t.between ++ (encode line ++ encode t.after)).head? = some b →
      isEnding b = true := by
    intro b hb
    cases hcut : encode t.between with
    | nil => exact absurd hcut (encode_ne_nil h.between_ne)
    | cons b' bs =>
        rw [hcut] at hb hbetween
        exact hbetween b (Option.some.inj hb ▸ List.mem_cons_self)
  have hnone : ∀ b ∈ ([] : List UInt8), isEnding b = true := nofun
  obtain ⟨number, hfirst⟩ := exists_rowsFrom 1 hnone (encode_ne_nil h.heading_ne)
    (not_isEnding_of_mem_encode h.heading_free) hhead
  have hdrop : (encode t.between ++ (encode line ++ encode t.after)).drop 1 =
      (encode t.between).drop 1 ++ (encode line ++ encode t.after) :=
    List.drop_append_of_le_length
      (List.length_pos_iff.mpr (encode_ne_nil h.between_ne))
  have hends : ∀ b ∈ (encode t.between).drop 1, isEnding b = true :=
    fun b hb => hbetween b (List.mem_of_mem_drop hb)
  have hrest : ∀ b, (encode t.after).head? = some b → isEnding b = true :=
    fun b hb => hafter b (List.mem_of_mem_head? hb)
  obtain ⟨last, hsecond⟩ := exists_rowsFrom number hends (encode_ne_nil hne)
    (not_isEnding_of_mem_encode hline) hrest
  have hend : ∀ b ∈ (encode t.after).drop 1, isEnding b = true :=
    fun b hb => hafter b (List.mem_of_mem_drop hb)
  have hthird := rowsFrom_endings last hend
  refine ⟨number, ?_⟩
  rw [rows, hmark, Table.write, encode_append, encode_append, encode_append]
  rw [List.nil_append] at hfirst
  rw [hfirst, hdrop, hsecond, hthird]

end Rows

/-! ## Boundaries -/

/-- The three texts of a boundary, as they are written. -/
structure Written where
  date : List Char
  volume : List Char
  issue : List Char

/-- The signature that the texts of a boundary write. -/
def Written.signature (w : Written) : Signature :=
  .parse (String.ofList w.date) (String.ofList w.volume) (String.ofList w.issue)

/-- Signatures do not see blanks at the ends of texts. -/
theorem Signature.parse_of_trim {date volume issue : String} {w : Written}
    (hd : Text.trim date.toList = Text.trim w.date)
    (hv : Text.trim volume.toList = Text.trim w.volume)
    (hi : Text.trim issue.toList = Text.trim w.issue) :
    Signature.parse date volume issue = w.signature := by
  have hdate : PartialDate.parse? date = PartialDate.parse? (String.ofList w.date) := by
    simp only [PartialDate.parse?, hd, String.toList_ofList]
  simp only [Written.signature, parse, hdate, Text.trimmed, hv, hi, String.toList_ofList]

namespace Kbart

open Rows Text.Utf8

/-! ## Lines -/

/-- The cells of a line, with serial numbers in two of them. -/
structure Line where
  title : List Char
  print : Option Issn
  online : Option Issn
  first : Written
  last : Written
  address : List Char
  author : List Char
  key : List Char
  embargo : List Char
  more : List (List Char)

namespace Line

/-- The cell of a serial number, which may be missing. -/
def serial (i : Option Issn) : List Char := (i.map Issn.canonical).getD []

/-- The cells in their order. -/
def cells (l : Line) : List (List Char) :=
  [l.title, serial l.print, serial l.online, l.first.date, l.first.volume, l.first.issue,
    l.last.date, l.last.volume, l.last.issue, l.address, l.author, l.key, l.embargo] ++ l.more

/-- The serial numbers of a line. -/
def serials (l : Line) : List Issn := l.print.toList ++ l.online.toList

/-- No cell has a tab or a break in it, there is a serial number, and none stands in the column
that may hold more of them. -/
structure Fits (l : Line) : Prop where
  free : ∀ cell ∈ l.cells, ∀ c ∈ cell, c ≠ '\t' ∧ isBreak c = false
  serials_ne : l.serials ≠ []
  no_more : Issn.findAll (Text.trim (l.more.getD 8 [])) = []

/-- A line as it is written. -/
def write (l : Line) : List Char := Text.join ['\t'] l.cells

end Line

/-- The row of some cells. -/
def rowOf (number : Nat) (cells : List (List Char)) : Row := ⟨number, cells.map encode⟩

theorem column_rowOf (number : Nat) (cells : List (List Char)) (i : Nat) :
    column (rowOf number cells) i = String.ofList (Text.trim (cells.getD i [])) := by
  have hget : (cells.map encode).getD i [] = encode (cells.getD i []) := by
    simp only [List.getD_eq_getElem?_getD, List.getElem?_map]
    cases cells[i]? <;> rfl
  rw [column, rowOf, hget, decodeLenient_encode]

theorem signature_rowOf {number : Nat} {cells : List (List Char)} {i : Nat} {w : Written}
    (hd : cells.getD i [] = w.date) (hv : cells.getD (i + 1) [] = w.volume)
    (hi : cells.getD (i + 2) [] = w.issue) : signature (rowOf number cells) i = w.signature := by
  rw [signature, column_rowOf, column_rowOf, column_rowOf, hd, hv, hi]
  apply Signature.parse_of_trim <;> rw [String.toList_ofList, Text.trim_trim]

theorem normalize_serial (i : Option Issn) :
    Issn.normalize (String.ofList (Text.trim (Line.serial i))) = (i.map Issn.text).getD "" := by
  cases i with
  | none => rfl
  | some i =>
      have htext : String.ofList (Text.trim i.canonical) = Text.trimmed i.text := by
        rw [Text.trimmed, Issn.text, String.toList_ofList]
      show Issn.normalize (String.ofList (Text.trim i.canonical)) = i.text
      rw [htext, Issn.normalize_trimmed, Issn.normalize_text]

/-- A cell without a serial number brings no identifier. -/
theorem distinct_serials (print online : Option Issn) :
    distinct [(print.map Issn.text).getD "", (online.map Issn.text).getD ""] =
      distinct ((print.toList ++ online.toList).map Issn.text) := by
  cases print <;> cases online <;> simp [distinct, Issn.isEmpty_text]

/-- What a line grants is what its cells say, without the blanks around them. -/
theorem outcome_line {l : Line} (h : l.Fits) (number : Nat) :
    outcome (rowOf number l.cells) =
      match Embargo.ofKbart? (String.ofList l.embargo) with
      | none => .refused (.invalidEmbargo (Text.trimmed (String.ofList l.embargo)))
      | some embargo => .ofRecord number (l.serials.map Issn.text)
          [.ok ⟨l.first.signature, l.last.signature, embargo⟩] := by
  have hlength : ¬ (rowOf number l.cells).fields.length < leastColumns := by
    simp [rowOf, Line.cells, leastColumns]
  have hembargo : column (rowOf number l.cells) 12 = Text.trimmed (String.ofList l.embargo) := by
    rw [column_rowOf, Text.trimmed, String.toList_ofList]
    rfl
  have hread : Embargo.ofKbart? (Text.trimmed (String.ofList l.embargo)) =
      Embargo.ofKbart? (String.ofList l.embargo) := by
    rw [Embargo.ofKbart?, Text.toList_trimmed, Text.trim_trim, Embargo.ofKbart?]
  have hmore : column (rowOf number l.cells) 21 = String.ofList (Text.trim (l.more.getD 8 [])) := by
    rw [column_rowOf]
    rfl
  have hids : distinct (identifiers (rowOf number l.cells)) =
      distinct (l.serials.map Issn.text) := by
    have hprint : Issn.normalize (column (rowOf number l.cells) 1) =
        (l.print.map Issn.text).getD "" := by
      rw [column_rowOf]
      exact normalize_serial l.print
    have honline : Issn.normalize (column (rowOf number l.cells) 2) =
        (l.online.map Issn.text).getD "" := by
      rw [column_rowOf]
      exact normalize_serial l.online
    rw [identifiers, hprint, honline, hmore, String.toList_ofList, h.no_more]
    exact distinct_serials l.print l.online
  have hfirst : signature (rowOf number l.cells) 3 = l.first.signature :=
    signature_rowOf rfl rfl rfl
  have hlast : signature (rowOf number l.cells) 6 = l.last.signature :=
    signature_rowOf rfl rfl rfl
  rw [outcome, if_neg hlength, hembargo, Embargo.readKbart, hread, hfirst, hlast]
  cases Embargo.ofKbart? (String.ofList l.embargo) with
  | none => rfl
  | some embargo =>
      show Outcome.ofRecord number (identifiers (rowOf number l.cells)) _ = _
      unfold Outcome.ofRecord
      rw [hids]

/-- The line has bytes that are not blank, those of its serial number. -/
theorem isBlank_line {l : Line} (h : l.Fits) (number : Nat) :
    isBlank (rowOf number l.cells) = false := by
  obtain ⟨i, hi⟩ := List.exists_mem_of_ne_nil _ h.serials_ne
  have hcell : i.canonical ∈ l.cells := by
    rw [Line.serials, List.mem_append, Option.mem_toList, Option.mem_toList] at hi
    rcases hi with hi | hi <;> simp [Line.cells, Line.serial, Option.mem_def.mp hi]
  have hdash : (45 : UInt8) ∈ encode i.canonical :=
    List.mem_flatMap.mpr ⟨'-', by simp [Issn.canonical], List.mem_singleton.mpr rfl⟩
  rw [isBlank, List.all_eq_false]
  refine ⟨encode i.canonical, List.mem_map_of_mem hcell, ?_⟩
  rw [Bool.not_eq_true, List.all_eq_false]
  exact ⟨45, hdash, by decide⟩

theorem free_join {cells : List (List Char)} (h : ∀ cell ∈ cells, ∀ c ∈ cell, isBreak c = false) :
    ∀ c ∈ Text.join ['\t'] cells, isBreak c = false := by
  induction cells with
  | nil => nofun
  | cons cell cells ih =>
      have hcell := h cell List.mem_cons_self
      have hrest := ih fun c hc => h c (List.mem_cons_of_mem _ hc)
      cases cells with
      | nil => exact hcell
      | cons next cells =>
          intro c hc
          rcases List.mem_append.mp hc with hc | hc
          · rcases List.mem_append.mp hc with hc | hc
            · exact hcell c hc
            · rw [List.mem_singleton.mp hc]
              rfl
          · exact hrest c hc

/-- A table with one line is one record. -/
theorem survey_written {t : Table} {l : Line} (ht : t.Fits) (h : l.Fits) :
    ∃ number, survey (encode (t.write l.write)) = ⟨[outcome (rowOf number l.cells)], .complete⟩ := by
  have hne : l.write ≠ [] := by
    show l.title ++ ['\t'] ++ _ ≠ []
    simp
  have hfree : ∀ c ∈ l.write, isBreak c = false :=
    free_join fun cell hcell c hc => (h.free cell hcell c hc).2
  obtain ⟨number, hrows⟩ := rows_written ht hne hfree
  have hfields : fields (encode l.write) = l.cells.map encode := by
    apply fields_encode_join (List.cons_ne_nil _ _)
    intro cell hcell hm
    exact (h.free cell hcell _ hm).1 rfl
  refine ⟨number, ?_⟩
  have hrow : (⟨number, fields (encode l.write)⟩ : Row) = rowOf number l.cells := by
    rw [hfields]
    rfl
  simp only [survey, hrows, hrow, List.drop_succ_cons, List.drop_zero, List.filter_cons,
    isBlank_line h, List.filter_nil]
  rfl

end Kbart

end Holdings
