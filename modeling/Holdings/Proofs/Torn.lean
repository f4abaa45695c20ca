import Mathlib.Data.List.Forall2
import Holdings.Format
import Holdings.Proofs.Utf8
/-!
# Documents that are torn

A reading of markup is torn if an element that it comes to would be cut inside of a character
(`Markup.ending_survey_eq_torn_iff`). It takes a byte order mark in front of the document, which
positions do not count (`Format.byteOrderMark_of_torn`). Without it every element is cut out as the
characters that it has, and the records end with the document or before a fault of the markup
(`Markup.survey_of_document`). A table is never torn.
-/

namespace Holdings

/-- The byte order mark as it stands in front of a document. -/
def Format.byteOrderMark : List UInt8 := [0xEF, 0xBB, 0xBF]

open Format (byteOrderMark)

/-! ## The mark as bytes and as a character -/

namespace Text.Utf8

theorem encode_mark : encode [Xml.mark] = byteOrderMark := by decide

theorem decodeLenient_mark_append (bs : List UInt8) :
    decodeLenient (byteOrderMark ++ bs) = Xml.mark :: decodeLenient bs := by
  rw [decodeLenient, ← encode_mark, pieces_encode_append]
  rfl

theorem head?_decodeLenient_ne {bs : List UInt8} (h : ¬ byteOrderMark <+: bs) :
    (decodeLenient bs).head? ≠ some Xml.mark := by
  intro hhead
  have hprefix := encode_prefix_of_head? (by decide) hhead
  rw [encode_mark] at hprefix
  exact h hprefix

end Text.Utf8

namespace Xml

theorem Document.ofChars_of_head {s : List Char} (h : s.head? ≠ some mark) :
    ofChars s = ⟨false, s⟩ := by
  cases s with
  | nil => rfl
  | cons c s =>
      have hc : c ≠ mark := fun he => h (congrArg some he)
      rw [ofChars, if_neg hc]

theorem Document.ofBytes_marked (bs : List UInt8) :
    ofBytes (byteOrderMark ++ bs) = ⟨true, Text.Utf8.decodeLenient bs⟩ := by
  rw [ofBytes, Text.Utf8.decodeLenient_mark_append]
  rfl

theorem Document.ofBytes_unmarked {bs : List UInt8} (h : ¬ byteOrderMark <+: bs) :
    ofBytes bs = ⟨false, Text.Utf8.decodeLenient bs⟩ :=
  ofChars_of_head (Text.Utf8.head?_decodeLenient_ne h)

/-! ## What elements are cut out as -/

/-- The text that an element is read from if it is cut out as the characters that it has. -/
def Element.source (e : Element) : List Char :=
  if isQualified e.name then unqualified e.raw else e.raw

namespace Document

variable {d : Document}

theorem source?_unmarked (text : List Char) (e : Element) :
    source? ⟨false, text⟩ e = some e.source := rfl

theorem sources_unmarked (text : List Char) (es : List Element) :
    sources ⟨false, text⟩ es = (es.map Element.source, true) := by
  induction es with
  | nil => rfl
  | cons e es ih =>
      rw [sources, source?_unmarked, ih]
      rfl

/-- The texts of elements that can all be cut out. -/
theorem forall₂_sources {es : List Element} (h : (d.sources es).2 = true) :
    List.Forall₂ (fun e s => d.source? e = some s) es (d.sources es).1 := by
  induction es with
  | nil => exact .nil
  | cons e es ih =>
      rw [sources] at h ⊢
      cases he : d.source? e with
      | none =>
          rw [he] at h
          cases h
      | some s =>
          rw [he] at h
          exact .cons he (ih h)

/-- What holds of the text of each element holds of all texts. -/
theorem forall_mem_sources {es : List Element} {P : List Char → Prop}
    (h : ∀ e ∈ es, ∀ s, d.source? e = some s → P s) : ∀ s ∈ (d.sources es).1, P s := by
  induction es with
  | nil => exact List.forall_mem_nil _
  | cons e es ih =>
      obtain ⟨hfirst, hrest⟩ := List.forall_mem_cons.mp h
      rw [sources]
      cases he : d.source? e with
      | none => exact List.forall_mem_nil _
      | some s => exact List.forall_mem_cons.mpr ⟨hfirst s he, ih hrest⟩

theorem sources_snd_eq_false_iff {es : List Element} :
    (d.sources es).2 = false ↔ ∃ e ∈ es, d.source? e = none := by
  induction es with
  | nil => simp [sources]
  | cons e es ih =>
      rw [sources, List.exists_mem_cons_iff]
      cases he : d.source? e with
      | none => simp
      | some s => simpa using ih

/-- Elements can be cut out as long as those before them can. -/
theorem getElem?_sources {es : List Element} {index : Nat} {e : Element} {s : List Char}
    (he : es[index]? = some e) (hbefore : ∀ e' ∈ es.take index, d.source? e' ≠ none)
    (hs : d.source? e = some s) : (d.sources es).1[index]? = some s := by
  induction es generalizing index with
  | nil => cases he
  | cons e' es ih =>
      rw [sources]
      cases index with
      | zero =>
          obtain rfl : e' = e := Option.some.inj he
          rw [hs]
          rfl
      | succ index =>
          rw [List.take_succ_cons, List.forall_mem_cons] at hbefore
          obtain ⟨s', hs'⟩ := Option.ne_none_iff_exists'.mp hbefore.1
          rw [hs']
          exact ih he hbefore.2

end Document

end Xml

/-! ## Where the records end -/

open Xml (Document)

namespace Markup

variable {name : String} {grant : Nat → Xml.Node → Option Outcome} {bs : List UInt8}

theorem outcomes_cons (first : Nat) (s : List Char) (ss : List (List Char)) :
    outcomes name grant first (s :: ss) =
      outcome name grant s first :: outcomes name grant (first + 1) ss := rfl

theorem outcomes_append (first : Nat) (ss ss' : List (List Char)) :
    outcomes name grant first (ss ++ ss') =
      outcomes name grant first ss ++ outcomes name grant (first + ss.length) ss' := by
  rw [outcomes, List.zipIdx_append, List.map_append]
  rfl

theorem getElem?_outcomes (first : Nat) (ss : List (List Char)) (index : Nat) :
    (outcomes name grant first ss)[index]? =
      ss[index]?.map fun s => outcome name grant s (first + index) := by
  rw [outcomes, List.getElem?_map, List.getElem?_zipIdx]
  cases ss[index]? <;> rfl

theorem length_outcomes (first : Nat) (ss : List (List Char)) :
    (outcomes name grant first ss).length = ss.length := by
  rw [outcomes, List.length_map, List.length_zipIdx]

theorem ending_eq_torn_iff {whole intact : Bool} :
    ending whole intact = .torn ↔ whole = false := by
  cases whole <;> cases intact <;> decide

/-- A document is torn exactly if one of its elements cannot be cut out. -/
theorem ending_survey_eq_torn_iff :
    (survey name grant bs).ending = .torn ↔
      ∃ e ∈ ((Document.ofBytes bs).elements name.toList).1,
        (Document.ofBytes bs).source? e = none := by
  rw [← Document.sources_snd_eq_false_iff, survey]
  exact ending_eq_torn_iff

/-- In a document without a mark every element is an outcome. -/
theorem survey_of_document {text : List Char} (h : Document.ofBytes bs = ⟨false, text⟩) :
    survey name grant bs =
      ⟨outcomes name grant 1
        (((Document.mk false text).elements name.toList).1.map Xml.Element.source),
        ending true ((Document.mk false text).elements name.toList).2⟩ := by
  rw [survey, h]
  dsimp only
  rw [Document.sources_unmarked]

/-- A document without elements of the name has no records, with a mark or without. -/
theorem survey_of_elements_nil (h : ((Document.ofBytes bs).elements name.toList).1 = []) :
    survey name grant bs =
      ⟨[], ending true ((Document.ofBytes bs).elements name.toList).2⟩ := by
  rw [survey]
  dsimp only
  rw [h]
  rfl

theorem ending_ne_torn {text : List Char} (h : Document.ofBytes bs = ⟨false, text⟩) :
    (survey name grant bs).ending ≠ .torn := by
  rw [survey_of_document h, ne_eq, ending_eq_torn_iff]
  exact nofun

end Markup

namespace Format

/-- What is torn has a byte order mark in front. -/
theorem byteOrderMark_of_torn {f : Format} {bs : List UInt8} (h : (f.survey bs).ending = .torn) :
    byteOrderMark <+: bs := by
  by_contra hmark
  cases f with
  | kbart => cases h
  | ezb => exact Markup.ending_ne_torn (Document.ofBytes_unmarked hmark) h
  | google => exact Markup.ending_ne_torn (Document.ofBytes_unmarked hmark) h

end Format

end Holdings
