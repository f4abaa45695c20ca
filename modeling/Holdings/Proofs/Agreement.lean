import Mathlib
import Holdings.Proofs.Brought
import Holdings.Proofs.Embargo
/-!
# The formats say the same

A table with one line, an EZB document with one holding and a Google Scholar document with one
item that are written from the same serial numbers and the same texts bring the same licences for
the same identifiers, whatever the texts are (`formats_agree`): dates that cannot be read are read
as no dates in all of them, and an embargo that is no embargo in one notation is none in the other.
What is left to show is that the three notations of an embargo agree.
-/

namespace Holdings

/-! ## Numerals -/

namespace Text

theorem trimStart_of_free {s : List Char} (h : ∀ c ∈ s, isBlank c = false) : trimStart s = s := by
  cases s with
  | nil => rfl
  | cons c s => simp [trimStart, h c List.mem_cons_self]

theorem trim_of_free {s : List Char} (h : ∀ c ∈ s, isBlank c = false) : trim s = s := by
  have hreverse : ∀ c ∈ s.reverse, isBlank c = false := fun c hc => h c (List.mem_reverse.mp hc)
  rw [trim, trimStart_of_free h, trimEnd, trimStart_of_free hreverse, List.reverse_reverse]

/-- A decimal numeral: digits, with a minus sign in front of them or without. -/
def IsDecimal (n : List Char) : Prop :=
  ∃ s : List Char, s ≠ [] ∧ (∀ c ∈ s, c.isDigit = true) ∧ (n = s ∨ n = '-' :: s)

namespace IsDecimal

variable {n : List Char}

theorem mem (h : IsDecimal n) {c : Char} (hc : c ∈ n) : c.isDigit = true ∨ c = '-' := by
  obtain ⟨s, -, hdigits, rfl | rfl⟩ := h
  · exact Or.inl (hdigits c hc)
  · rcases List.mem_cons.mp hc with rfl | hc
    · exact Or.inr rfl
    · exact Or.inl (hdigits c hc)

/-- The characters of a numeral: no letters, no blanks, and nothing of markup. -/
theorem toNat_mem (h : IsDecimal n) {c : Char} (hc : c ∈ n) :
    c.toNat = 45 ∨ 48 ≤ c.toNat ∧ c.toNat ≤ 57 := by
  rcases h.mem hc with hd | rfl
  · exact Or.inr (toNat_of_isDigit hd)
  · exact Or.inl rfl

theorem isBlank (h : IsDecimal n) {c : Char} (hc : c ∈ n) : isBlank c = false := by
  have := h.toNat_mem hc
  simp only [Text.isBlank, Bool.or_eq_false_iff, Bool.and_eq_false_iff, decide_eq_false_iff_not,
    beq_eq_false_iff_ne]
  omega

theorem map_toUpper (h : IsDecimal n) : n.map Char.toUpper = n := by
  refine (List.map_congr_left fun c hc => toUpper_eq_self ?_).trans (List.map_id _)
  have := h.toNat_mem hc
  omega

theorem not_mem (h : IsDecimal n) {c : Char} (hlow : c.toNat < 45) : c ∉ n := by
  intro hc
  have := h.toNat_mem hc
  omega

theorem ne_nil (h : IsDecimal n) : n ≠ [] := by
  obtain ⟨s, hs, -, rfl | rfl⟩ := h
  · exact hs
  · exact List.cons_ne_nil _ _

/-- A numeral that is read without a sign has none. -/
theorem integer?_of_natural? (h : IsDecimal n) {k : Nat} (hk : natural? n = some k) :
    integer? n = some k := by
  cases n with
  | nil => cases hk
  | cons c n =>
      have hdigit : c.isDigit = true := by
        rw [natural?] at hk
        split at hk
        · next hall => exact List.all_eq_true.mp hall.2 c List.mem_cons_self
        · cases hk
      unfold integer?
      split
      · next he => cases he; cases hdigit
      · next he => cases he; cases hdigit
      · rw [hk]; rfl

end IsDecimal

end Text

/-! ## Notations of embargoes -/

namespace Embargo

variable {n : List Char} {u : Char} {g : Grain}

/-- The embargo of a table that withholds what is later. -/
theorem ofKbart?_units (hn : Text.IsDecimal n) (hu : Grain.ofLetter? u = some g) :
    ofKbart? (String.ofList ('P' :: (n ++ [u]))) =
      (Text.natural? n).bind fun k => ofUnits? (-(k : Int)) g false := by
  rw [Grain.ofLetter?_eq_some_iff.mp hu]
  exact ofKbart?_unitText false hn.map_toUpper

/-- The delay of an entitlement, which is none in days. -/
theorem ofDelay?_units (hu : Grain.ofLetter? u = some g) (hg : g ≠ .day) :
    ofDelay? (String.ofList ('-' :: (n ++ [u]))) =
      (Text.natural? n).bind fun k => ofUnits? (-(k : Int)) g false := by
  rw [Grain.ofLetter?_eq_some_iff.mp hu]
  exact ofDelay?_unitText hg

/-- The days that are not available, as far as they can be counted. -/
theorem ofDays?_eq_ofKbart? (hn : Text.IsDecimal n)
    (hmax : ∀ z, Text.integer? n = some z → z ≤ 4294967295) :
    ofDays? (String.ofList n) = ofKbart? (String.ofList ('P' :: (n ++ ['D']))) := by
  have hday : Grain.ofLetter? 'D' = some .day := rfl
  have hword : Text.word32? n = (Text.natural? n).filter (· < UInt32.size) := by
    unfold Text.word32?
    split
    · exact absurd List.mem_cons_self (hn.not_mem (c := '+') (by decide))
    · rfl
  rw [ofKbart?_units hn hday, ofDays?, String.toList_ofList,
    Text.trim_of_free fun c hc => hn.isBlank hc]
  rw [if_neg hn.ne_nil, hword]
  cases hk : Text.natural? n with
  | none => rfl
  | some k =>
      have hbound := hmax k (hn.integer?_of_natural? hk)
      have hsize : k < UInt32.size := by
        have : UInt32.size = 4294967296 := rfl
        omega
      rw [Option.filter_some, if_pos (decide_eq_true hsize), Option.bind_some, ofUnits?_days hsize]
      rfl

/-- Nothing is no embargo in all notations. -/
theorem of_nothing :
    ofKbart? (String.ofList []) = some absent ∧ ofDelay? (String.ofList []) = some absent ∧
      ofDays? (String.ofList []) = some absent := by
  refine ⟨?_, ?_, ?_⟩
  · rw [ofKbart?, String.toList_ofList]
    rfl
  · rw [ofDelay?, String.toList_ofList]
    rfl
  · rw [ofDays?, String.toList_ofList]
    rfl

end Embargo

/-! ## The same holdings -/

/-- Two readings succeed, with the same identifiers and the same licences for each of them. -/
def SameHoldings (x y : Except DocumentFault Reading) : Prop :=
  ∃ r r', x = .ok r ∧ y = .ok r' ∧
    (∀ id, id ∈ r.registry.identifiers ↔ id ∈ r'.registry.identifiers) ∧
    ∀ id, r.registry.lookup id = r'.registry.lookup id

/-- What every format tells of a record: its serial numbers, and the texts of its boundaries. -/
structure Told where
  serials : List Issn
  first : Written
  last : Written

/-- The same serial numbers in any order, and the same texts. -/
structure Told.Same (a b : Told) : Prop where
  serials : ∀ i, i ∈ a.serials ↔ i ∈ b.serials
  first : a.first = b.first
  last : a.last = b.last

/-- What a line of a table tells. -/
def Kbart.Line.told (l : Kbart.Line) : Told := ⟨l.serials, l.first, l.last⟩

/-- What a holding tells. -/
def Ezb.Holding.told (h : Ezb.Holding) : Told := ⟨h.serials, h.first, h.last⟩

/-- What an item tells. -/
def Google.Item.told (i : Google.Item) : Told := ⟨i.serials, i.first, i.last⟩

theorem sameHoldings_of_brings {x y : Except DocumentFault Reading} {serials serials' : List Issn}
    {l : Option Licence} (hx : Brings x serials l) (hy : Brings y serials' l)
    (h : ∀ i, i ∈ serials ↔ i ∈ serials') : SameHoldings x y := by
  have htexts : ∀ id, id ∈ serials.map Issn.text ↔ id ∈ serials'.map Issn.text := by
    intro id
    simp only [List.mem_map, h]
  obtain ⟨r, hr, hids, hlookup⟩ := hx
  obtain ⟨r', hr', hids', hlookup'⟩ := hy
  refine ⟨r, r', hr, hr', fun id => ?_, fun id => ?_⟩
  · rw [hids, hids', htexts]
  · rw [hlookup, hlookup']
    simp only [htexts]

/-- No text of a boundary has a tab, a line break, or a character of markup in it. -/
def Written.Plain (w : Written) : Prop :=
  ∀ c ∈ w.date ++ (w.volume ++ w.issue),
    c ≠ '\t' ∧ Rows.isBreak c = false ∧ c ≠ '<' ∧ c ≠ '&'

theorem Written.Plain.unreferenced {w : Written} (h : w.Plain) : w.Unreferenced := by
  have hfree : '&' ∉ w.date ++ (w.volume ++ w.issue) := fun hm => (h '&' hm).2.2.2 rfl
  simp only [List.mem_append, not_or] at hfree
  exact ⟨hfree.1, hfree.2.1, hfree.2.2⟩

/-- A line with another embargo. -/
def Kbart.Line.withEmbargo (l : Kbart.Line) (embargo : List Char) : Kbart.Line :=
  { l with embargo := embargo }

/-- What is asked of a line, its embargo apart. -/
theorem Kbart.Line.Fits.withEmbargo {l : Kbart.Line} (h : l.Fits) {embargo : List Char}
    (hfree : ∀ c ∈ embargo, c ≠ '\t' ∧ Rows.isBreak c = false) : (l.withEmbargo embargo).Fits where
  free := by
    intro cell hcell
    have hcells : cell = embargo ∨ cell ∈ l.cells := by
      simp only [Kbart.Line.cells, Kbart.Line.withEmbargo, List.cons_append, List.nil_append,
        List.mem_cons] at hcell ⊢
      tauto
    rcases hcells with rfl | hcell
    · exact hfree
    · exact h.free cell hcell
  serials_ne := h.serials_ne
  no_more := h.no_more

/-- The notation of an embargo in a table fits in a cell. -/
theorem free_units {n : List Char} (hn : Text.IsDecimal n) {u : Char} {g : Grain}
    (hu : Grain.ofLetter? u = some g) :
    ∀ c ∈ 'P' :: (n ++ [u]), c ≠ '\t' ∧ Rows.isBreak c = false := by
  intro c hc
  have hlow : ¬ c.toNat < 45 := by
    rcases List.mem_cons.mp hc with rfl | hc
    · decide
    · rcases List.mem_append.mp hc with hc | hc
      · exact fun hlow => hn.not_mem hlow hc
      · rw [List.mem_singleton.mp hc]
        rw [Grain.ofLetter?_eq_some_iff.mp hu]
        cases g <;> decide
  refine ⟨?_, ?_⟩
  · rintro rfl
    exact hlow (by decide)
  · rw [Rows.isBreak, Bool.or_eq_false_iff, decide_eq_false_iff_not, decide_eq_false_iff_not]
    constructor
    · rintro rfl
      exact hlow (by decide)
    · rintro rfl
      exact hlow (by decide)

/-- A document has one holding, which says what it should. -/
def Ezb.Holding.WrittenIn (h : Ezb.Holding) (s : Xml.Sheet) : Prop :=
  s.Fits ∧ ∃ o, s.root.found "holding".toList = [o] ∧ h.SaidBy o

/-- A document has one item, which says what it should. -/
def Google.Item.WrittenIn (i : Google.Item) (s : Xml.Sheet) : Prop :=
  s.Fits ∧ ∃ o, s.root.found "item".toList = [o] ∧ i.SaidBy o

section

open Rows Text.Utf8

variable {t : Table} {l : Kbart.Line}

theorem serials_ne_of_same {a b : Told} (h : a.Same b) (hne : b.serials ≠ []) :
    a.serials ≠ [] := by
  obtain ⟨i, hi⟩ := List.exists_mem_of_ne_nil _ hne
  exact List.ne_nil_of_mem ((h.serials i).mpr hi)

/-- A table and an EZB document that tell the same agree if their embargoes do. -/
theorem sameHoldings_ezb (ht : t.Fits) (hl : l.Fits) (hfirst : l.first.Plain)
    (hlast : l.last.Plain) {h : Ezb.Holding} {s : Xml.Sheet} (hs : h.WrittenIn s)
    (hsame : h.told.Same l.told) (hdelay : '&' ∉ h.delay) (hlastDelay : '&' ∉ h.lastDelay)
    (hembargo : Embargo.ofDelay? (String.ofList h.countedDelay) =
      Embargo.ofKbart? (String.ofList l.embargo)) :
    SameHoldings (Format.kbart.parse .lenient (encode (t.write l.write)))
      (Format.ezb.parse .lenient (encode s.write)) := by
  obtain ⟨hfits, o, ho, hsaid⟩ := hs
  have hf : h.first = l.first := hsame.first
  have hg : h.last = l.last := hsame.last
  have hh : h.Fits := ⟨hf ▸ hfirst.unreferenced, hg ▸ hlast.unreferenced, hdelay, hlastDelay,
    serials_ne_of_same hsame hl.serials_ne⟩
  have hezb := Ezb.brings hh hfits ho hsaid
  rw [hembargo, hf, hg] at hezb
  exact sameHoldings_of_brings (Kbart.brings ht hl) hezb fun i => (hsame.serials i).symm

/-- A table and a Google Scholar document that tell the same agree if their embargoes do. -/
theorem sameHoldings_google (ht : t.Fits) (hl : l.Fits) (hfirst : l.first.Plain)
    (hlast : l.last.Plain) {i : Google.Item} {s : Xml.Sheet} (hs : i.WrittenIn s)
    (hsame : i.told.Same l.told) (hdays : '&' ∉ i.days)
    (hembargo : Embargo.ofDays? (String.ofList i.days) =
      Embargo.ofKbart? (String.ofList l.embargo)) :
    SameHoldings (Format.kbart.parse .lenient (encode (t.write l.write)))
      (Format.google.parse .lenient (encode s.write)) := by
  obtain ⟨hfits, o, ho, hsaid⟩ := hs
  have hf : i.first = l.first := hsame.first
  have hg : i.last = l.last := hsame.last
  have hi : i.Fits := ⟨hf ▸ hfirst.unreferenced, hg ▸ hlast.unreferenced, hdays,
    serials_ne_of_same hsame hl.serials_ne⟩
  have hgoogle := Google.brings hi hfits ho hsaid
  rw [hembargo, hf, hg] at hgoogle
  exact sameHoldings_of_brings (Kbart.brings ht hl) hgoogle fun j => (hsame.serials j).symm

/-- Documents in different formats that are written from the same serial numbers and boundaries
bring the same holdings. Embargoes of months and years stand in a table as in the delay of an
entitlement, embargoes of days as in the days that are not available, as far as these can be
counted; an empty embargo is the same in all of them. -/
theorem formats_agree {n : List Char} (ht : t.Fits) (hl : l.Fits) (hfirst : l.first.Plain)
    (hlast : l.last.Plain) (hn : Text.IsDecimal n) :
    (∀ u : Char, u = 'M' ∨ u = 'Y' → ∀ (h : Ezb.Holding) (s : Xml.Sheet), h.WrittenIn s →
      h.told.Same l.told → h.delay = '-' :: (n ++ [u]) → '&' ∉ h.lastDelay →
      SameHoldings
        (Format.kbart.parse .lenient
          (encode (t.write (l.withEmbargo ('P' :: (n ++ [u]))).write)))
        (Format.ezb.parse .lenient (encode s.write))) ∧
    ((∀ z, Text.integer? n = some z → z ≤ 4294967295) →
      ∀ (i : Google.Item) (s : Xml.Sheet), i.WrittenIn s → i.told.Same l.told → i.days = n →
      SameHoldings
        (Format.kbart.parse .lenient
          (encode (t.write (l.withEmbargo ('P' :: (n ++ ['D']))).write)))
        (Format.google.parse .lenient (encode s.write))) ∧
    (∀ (h : Ezb.Holding) (s : Xml.Sheet), h.WrittenIn s → h.told.Same l.told → h.delay = [] →
      h.lastDelay = [] →
      SameHoldings
        (Format.kbart.parse .lenient (encode (t.write (l.withEmbargo []).write)))
        (Format.ezb.parse .lenient (encode s.write))) ∧
    ∀ (i : Google.Item) (s : Xml.Sheet), i.WrittenIn s → i.told.Same l.told → i.days = [] →
      SameHoldings
        (Format.kbart.parse .lenient (encode (t.write (l.withEmbargo []).write)))
        (Format.google.parse .lenient (encode s.write)) := by
  have hampersand : '&' ∉ n := hn.not_mem (by decide)
  have hempty : (l.withEmbargo []).Fits := hl.withEmbargo nofun
  obtain ⟨hkbart, hezb, hgoogle⟩ := Embargo.of_nothing
  refine ⟨fun u hu h s hs hsame hdelay hlastDelay => ?_, fun hmax i s hs hsame hdays => ?_,
    fun h s hs hsame hdelay hlastDelay => ?_, fun i s hs hsame hdays => ?_⟩
  · obtain ⟨g, hg, hday⟩ : ∃ g, Grain.ofLetter? u = some g ∧ g ≠ .day := by
      rcases hu with rfl | rfl
      · exact ⟨.month, rfl, by decide⟩
      · exact ⟨.year, rfl, by decide⟩
    have hfree : '&' ∉ h.delay := by
      rw [hdelay, List.mem_cons, List.mem_append, List.mem_singleton]
      rintro (he | he | rfl)
      · cases he
      · exact hampersand he
      · cases hg
    have hcounted : h.countedDelay = '-' :: (n ++ [u]) := by
      have hletter : Text.isBlank u = false := Grain.ofLetter?_eq_some_iff.mp hg ▸ g.isBlank_letter
      rw [Ezb.Holding.countedDelay, hdelay, Text.trim_of_ends rfl hletter,
        if_neg (List.cons_ne_nil _ _)]
    have hembargo : Embargo.ofDelay? (String.ofList h.countedDelay) =
        Embargo.ofKbart? (String.ofList ('P' :: (n ++ [u]))) := by
      rw [hcounted, Embargo.ofDelay?_units hg hday, Embargo.ofKbart?_units hn hg]
    exact sameHoldings_ezb ht (hl.withEmbargo (free_units hn hg)) hfirst hlast hs hsame hfree
      hlastDelay hembargo
  · have hembargo : Embargo.ofDays? (String.ofList i.days) =
        Embargo.ofKbart? (String.ofList ('P' :: (n ++ ['D']))) := by
      rw [hdays, Embargo.ofDays?_eq_ofKbart? hn hmax]
    have hday : Grain.ofLetter? 'D' = some .day := rfl
    exact sameHoldings_google ht (hl.withEmbargo (free_units hn hday)) hfirst hlast hs hsame
      (hdays ▸ hampersand) hembargo
  · have hcounted : h.countedDelay = [] := by
      rw [Ezb.Holding.countedDelay, hdelay, if_pos Text.trim_nil, hlastDelay]
    have hembargo : Embargo.ofDelay? (String.ofList h.countedDelay) =
        Embargo.ofKbart? (String.ofList []) := by
      rw [hcounted, hezb, hkbart]
    exact sameHoldings_ezb ht hempty hfirst hlast hs hsame (hdelay ▸ List.not_mem_nil)
      (hlastDelay ▸ List.not_mem_nil) hembargo
  · have hembargo : Embargo.ofDays? (String.ofList i.days) =
        Embargo.ofKbart? (String.ofList []) := by
      rw [hdays, hgoogle, hkbart]
    exact sameHoldings_google ht hempty hfirst hlast hs hsame (hdays ▸ List.not_mem_nil) hembargo

end

/-! ## One record in three formats -/

section

open Xml Xml.Outline

/-- A serial number. -/
def samplePrint : Issn := ⟨"00062499".toList, by decide⟩

/-- Another one. -/
def sampleOnline : Issn := ⟨"1234567X".toList, by decide⟩

/-- A line of two serial numbers, with a date that cannot be read and a blank issue. -/
def sampleLine : Kbart.Line where
  title := "Journal of Things".toList
  print := some samplePrint
  online := some sampleOnline
  first := ⟨"about 1990".toList, "12".toList, " ".toList⟩
  last := ⟨"2010-12".toList, [], "4a".toList⟩
  address := []
  author := []
  key := []
  embargo := []
  more := [" fulltext ".toList]

/-- A heading for it, and its line breaks. -/
def sampleTable : Rows.Table := ⟨"publication_title\tprint_identifier".toList, ['\r', '\n'], ['\n']⟩

/-- The boundaries of the line in markup. -/
def sampleBoundaries (first last : String) (more : List Outline) : List Outline :=
  [ofChildren first
    ([ofText "year" "about 1990", ofText "volume" "12", ofText "issue" " "] ++ more),
   ofChildren last [ofText "year" "2010-12", ofText "issue" "4a"]]

/-- A holding with the same texts and a delay. -/
def sampleHolding (delay : String) : Ezb.Holding where
  print := [samplePrint]
  electronic := [sampleOnline]
  first := sampleLine.first
  last := sampleLine.last
  delay := delay.toList
  lastDelay := []

/-- Its document. -/
def sampleEzb (delay : String) : Sheet :=
  .ofRoot (ofChildren "institution" [ofChildren "holding"
    [ofText "title" "Journal of Things",
     ofChildren "EZBIssns" [ofText "p-issn" "0006-2499", ofText "e-issn" "1234-567X"],
     ofChildren "entitlements" [ofChildren "entitlement"
       (sampleBoundaries "begin" "end" [ofText "delay" delay])]]])

/-- An item with the same texts and days that are not available. -/
def sampleItem (days : String) : Google.Item where
  serials := [samplePrint, sampleOnline]
  first := sampleLine.first
  last := sampleLine.last
  days := days.toList

/-- Its document. -/
def sampleGoogle (days : String) : Sheet :=
  .ofRoot (ofChildren "institutional_holdings" [ofChildren "item"
    [ofText "issn" "0006-2499", ofText "issn" "1234-567X",
     ofChildren "coverage" (sampleBoundaries "from" "to" [] ++
       [ofChildren "embargo" [ofText "days_not_available" days]])]])

section

variable {more : List Outline} {first last : String}

/-- The boundaries can be written under any names, and whatever is written with them. -/
theorem allFit_sampleBoundaries (hfirst : NameFits first.toList) (hlast : NameFits last.toList)
    (h : AllFit more) : AllFit (sampleBoundaries first last more) := by
  have hyear : (ofText "year" "about 1990").Fits :=
    fits_ofText (by decide) (forall_mem_of_all (by decide))
  have hvolume : (ofText "volume" "12").Fits :=
    fits_ofText (by decide) (forall_mem_of_all (by decide))
  have hissue : (ofText "issue" " ").Fits :=
    fits_ofText (by decide) (forall_mem_of_all (by decide))
  have hyear' : (ofText "year" "2010-12").Fits :=
    fits_ofText (by decide) (forall_mem_of_all (by decide))
  have hissue' : (ofText "issue" "4a").Fits :=
    fits_ofText (by decide) (forall_mem_of_all (by decide))
  exact ⟨fits_ofChildren hfirst ⟨hyear, hvolume, hissue, h⟩,
    fits_ofChildren hlast ⟨hyear', hissue', trivial⟩, trivial⟩

theorem writtenIn_sampleEzb {delay : String} (h : ∀ c ∈ delay.toList, c ≠ '<' ∧ c ≠ '&') :
    (sampleHolding delay).WrittenIn (sampleEzb delay) := by
  have htitle : (ofText "title" "Journal of Things").Fits :=
    fits_ofText (by decide) (forall_mem_of_all (by decide))
  have hprint : (ofText "p-issn" "0006-2499").Fits :=
    fits_ofText (by decide) (forall_mem_of_all (by decide))
  have honline : (ofText "e-issn" "1234-567X").Fits :=
    fits_ofText (by decide) (forall_mem_of_all (by decide))
  have hdelay : (ofText "delay" delay).Fits := fits_ofText (by decide) h
  have hbounds : AllFit (sampleBoundaries "begin" "end" [ofText "delay" delay]) :=
    allFit_sampleBoundaries (by decide) (by decide) ⟨hdelay, trivial⟩
  refine ⟨Sheet.fits_ofRoot (fits_ofChildren (by decide) ⟨fits_ofChildren (by decide) ⟨htitle,
    fits_ofChildren (by decide) ⟨hprint, honline, trivial⟩,
    fits_ofChildren (by decide) ⟨fits_ofChildren (by decide) hbounds, trivial⟩, trivial⟩,
    trivial⟩), _, rfl, ?_, ?_⟩
  · exact ⟨_, rfl, rfl, rfl⟩
  · refine ⟨_, _, rfl, rfl, Or.inr ⟨_, rfl, ?_⟩, Or.inr ⟨_, rfl, ?_⟩⟩
    · exact ⟨Or.inr ⟨_, rfl, rfl⟩, Or.inr ⟨_, rfl, rfl⟩, Or.inr ⟨_, rfl, rfl⟩,
        Or.inr ⟨_, rfl, rfl⟩⟩
    · exact ⟨Or.inr ⟨_, rfl, rfl⟩, Or.inl ⟨rfl, rfl⟩, Or.inr ⟨_, rfl, rfl⟩, Or.inl ⟨rfl, rfl⟩⟩

theorem writtenIn_sampleGoogle {days : String} (h : ∀ c ∈ days.toList, c ≠ '<' ∧ c ≠ '&') :
    (sampleItem days).WrittenIn (sampleGoogle days) := by
  have hprint : (ofText "issn" "0006-2499").Fits :=
    fits_ofText (by decide) (forall_mem_of_all (by decide))
  have honline : (ofText "issn" "1234-567X").Fits :=
    fits_ofText (by decide) (forall_mem_of_all (by decide))
  have hdays : (ofText "days_not_available" days).Fits := fits_ofText (by decide) h
  have hbounds : AllFit (sampleBoundaries "from" "to" []) :=
    allFit_sampleBoundaries (by decide) (by decide) trivial
  refine ⟨Sheet.fits_ofRoot (fits_ofChildren (by decide) ⟨fits_ofChildren (by decide) ⟨hprint,
    honline, fits_ofChildren (by decide) ⟨hbounds.1, hbounds.2.1,
      fits_ofChildren (by decide) ⟨hdays, trivial⟩, trivial⟩, trivial⟩, trivial⟩), _, rfl, rfl, ?_⟩
  refine ⟨_, rfl, Or.inr ⟨_, rfl, ?_⟩, Or.inr ⟨_, rfl, ?_⟩, Or.inr ⟨_, rfl, ?_⟩⟩
  · exact ⟨Or.inr ⟨_, rfl, rfl⟩, Or.inr ⟨_, rfl, rfl⟩, Or.inr ⟨_, rfl, rfl⟩⟩
  · exact ⟨Or.inr ⟨_, rfl, rfl⟩, Or.inl ⟨rfl, rfl⟩, Or.inr ⟨_, rfl, rfl⟩⟩
  · exact Or.inr ⟨_, rfl, rfl⟩

end

theorem fits_sampleTable : sampleTable.Fits where
  heading_ne := by decide
  heading_free := forall_mem_of_all (by decide)
  unmarked := by decide
  between_ne := by decide
  between_breaks := forall_mem_of_all (by decide)
  after_breaks := forall_mem_of_all (by decide)

theorem fits_sampleLine : sampleLine.Fits where
  free := by
    have hcells : ∀ cell ∈ sampleLine.cells,
        (cell.all fun c => decide (c ≠ '\t' ∧ Rows.isBreak c = false)) = true :=
      List.all_eq_true.mp (by decide)
    exact fun cell hcell => forall_mem_of_all (hcells cell hcell)
  serials_ne := by decide
  no_more := by cbv

open Text.Utf8 in
theorem formats_agree_twelve :
    SameHoldings
      (Format.kbart.parse .lenient
        (encode (sampleTable.write (sampleLine.withEmbargo "P12M".toList).write)))
      (Format.ezb.parse .lenient (encode (sampleEzb "-12M").write)) ∧
    SameHoldings
      (Format.kbart.parse .lenient
        (encode (sampleTable.write (sampleLine.withEmbargo "P12D".toList).write)))
      (Format.google.parse .lenient (encode (sampleGoogle "12").write)) ∧
    SameHoldings
      (Format.kbart.parse .lenient
        (encode (sampleTable.write (sampleLine.withEmbargo []).write)))
      (Format.ezb.parse .lenient (encode (sampleEzb "").write)) ∧
    SameHoldings
      (Format.kbart.parse .lenient
        (encode (sampleTable.write (sampleLine.withEmbargo []).write)))
      (Format.google.parse .lenient (encode (sampleGoogle "").write)) := by
  have hdecimal : Text.IsDecimal "12".toList :=
    ⟨_, by decide, forall_mem_of_all (by decide), Or.inl rfl⟩
  have hmax : ∀ z, Text.integer? "12".toList = some z → z ≤ 4294967295 := by
    intro z hz
    have h12 : Text.integer? "12".toList = some 12 := by decide
    rw [h12] at hz
    rw [← Option.some.inj hz]
    decide
  have hfirst : sampleLine.first.Plain := forall_mem_of_all (by decide)
  have hlast : sampleLine.last.Plain := forall_mem_of_all (by decide)
  have hsame : ∀ delay, (sampleHolding delay).told.Same sampleLine.told := by
    intro delay
    refine ⟨fun i => ?_, rfl, rfl⟩
    show i ∈ [sampleOnline, samplePrint] ↔ i ∈ [samplePrint, sampleOnline]
    simp [or_comm]
  have hsame' : ∀ days, (sampleItem days).told.Same sampleLine.told :=
    fun days => ⟨fun i => Iff.rfl, rfl, rfl⟩
  have hmonth : 'P' :: ("12".toList ++ ['M']) = "P12M".toList := by decide
  have hday : 'P' :: ("12".toList ++ ['D']) = "P12D".toList := by decide
  have hdelay : (sampleHolding "-12M").delay = '-' :: ("12".toList ++ ['M']) := by decide
  have hempty : "".toList = [] := by decide
  obtain ⟨hmonths, hdays, hnoDelay, hnoDays⟩ :=
    formats_agree fits_sampleTable fits_sampleLine hfirst hlast hdecimal
  have hezb : (sampleHolding "-12M").WrittenIn (sampleEzb "-12M") :=
    writtenIn_sampleEzb (forall_mem_of_all (by decide))
  have hezb' : (sampleHolding "").WrittenIn (sampleEzb "") :=
    writtenIn_sampleEzb (forall_mem_of_all (by decide))
  have hgoogle : (sampleItem "12").WrittenIn (sampleGoogle "12") :=
    writtenIn_sampleGoogle (forall_mem_of_all (by decide))
  have hgoogle' : (sampleItem "").WrittenIn (sampleGoogle "") :=
    writtenIn_sampleGoogle (forall_mem_of_all (by decide))
  have hagree := hmonths 'M' (Or.inl rfl) _ _ hezb (hsame _) hdelay nofun
  have hagree' := hdays hmax _ _ hgoogle (hsame' _) rfl
  rw [hmonth] at hagree
  rw [hday] at hagree'
  exact ⟨hagree, hagree', hnoDelay _ _ hezb' (hsame _) hempty rfl,
    hnoDays _ _ hgoogle' (hsame' _) hempty⟩

end

end Holdings
