import Holdings.Proofs.Contents
import Holdings.Proofs.Fields
import Holdings.Proofs.Product
/-!
# Elements in their documents

What an element says is filed as the product of its identifiers and its windows. It does not matter
what stands between its parts (`Contents.In.isProduct`), nor where it stands in a document: what is
read from this is what the elements before it bring, then what it brings itself, and then what those
after it bring (`Markup.read_between`).
-/

namespace Holdings

/-! ## What elements say -/

namespace Ezb

/-- The delay that decides: that of the beginning, unless it is blank. -/
def Entitlement.counted (e : Entitlement) : String :=
  if e.first.delay.toList.all Text.isBlank then e.last.delay else e.first.delay

/-- The licence of an entitlement, if the delay that decides makes an embargo. -/
def Entitlement.window (e : Entitlement) : Option Licence :=
  (Embargo.ofDelay? e.counted).map fun embargo => ⟨e.first.signature, e.last.signature, embargo⟩

/-- The serial numbers that count, each once, electronic editions first. -/
def Contents.keys (c : Contents) : List String :=
  distinct ((c.electronic ++ c.print).map Issn.normalize)

/-- The windows of the entitlements. -/
def Contents.windows (c : Contents) : List (Option Licence) := c.entitlements.map Entitlement.window

theorem Entitlement.delay_eq_counted (e : Entitlement) : e.delay = e.counted := by
  have hblank : (Text.trimmed e.first.delay).isEmpty = true ↔
      e.first.delay.toList.all Text.isBlank = true := by
    rw [String.isEmpty_iff, ← String.toList_eq_nil_iff, Text.toList_trimmed, Text.trim_eq_nil_iff,
      List.all_eq_true]
  rw [delay, counted]
  exact if_congr hblank rfl rfl

theorem Entitlement.toOption_licence_eq_window (e : Entitlement) :
    e.licence.toOption = e.window := by
  rw [toOption_licence, delay_eq_counted, window]

/-- A holding that says something brings the product of its serial numbers and entitlements. -/
theorem Contents.In.isProduct {c : Contents} {n : Xml.Node} (h : c.In n) (index : Nat) :
    ∃ o, holding? index n = some o ∧ o.share.IsProduct c.keys c.windows := by
  refine ⟨_, h.holding?_eq index, ?_⟩
  refine Outcome.isProduct_share_map Entitlement.toOption_licence_eq_window ?_ index _ _
  intro e fault hfault
  rw [Embargo.eq_of_map_orQuoted hfault]
  rfl

end Ezb

namespace Google

/-- The licence of a coverage, if its days make an embargo. -/
def Coverage.window (c : Coverage) : Option Licence :=
  (Embargo.ofDays? c.days).map fun embargo => ⟨c.first.signature, c.last.signature, embargo⟩

/-- The serial numbers that count, each once. -/
def Contents.keys (c : Contents) : List String := distinct (c.serials.map Issn.normalize)

/-- The windows of the coverages. -/
def Contents.windows (c : Contents) : List (Option Licence) := c.coverages.map Coverage.window

theorem Coverage.toOption_licence_eq_window (c : Coverage) :
    (licence c.first.signature c.last.signature c.days).toOption = c.window := by
  rw [toOption_licence, window]

/-- An item that says something brings the product of its serial numbers and coverages. -/
theorem Contents.In.isProduct {c : Contents} {n : Xml.Node} (h : c.In n) (index : Nat) :
    ∃ o, item? index n = some o ∧ o.share.IsProduct c.keys c.windows := by
  refine ⟨_, h.item?_eq index, ?_⟩
  refine Outcome.isProduct_share_map Coverage.toOption_licence_eq_window ?_ index _ _
  intro c fault hfault
  rw [Embargo.eq_of_map_orQuoted hfault]
  rfl

end Google

/-! ## Elements in their documents -/

namespace Markup

open Xml

variable {name : String} {grant : Nat → Node → Option Outcome}

/-- What elements bring that are counted from some number on. -/
def brought (name : String) (grant : Nat → Node → Option Outcome) (first : Nat)
    (es : List Element) : Reading :=
  shares (outcomes name grant first (es.map Element.source))

/-- A node stands in a document without a byte order mark that can be read to its end, as one of the
elements of a name. -/
def Stands (n : Node) (name : String) (d : Document) (before after : List Element) : Prop :=
  d.marked = false ∧ ∃ e, d.elements name.toList = (before ++ e :: after, true) ∧
    Node.ofFragment? e.source = some n

/-- What is read from a document if an element brings `r` that stands between others. -/
def between (name : String) (grant : Nat → Node → Option Outcome) (before : List Element)
    (r : Reading) (after : List Element) : Reading :=
  (brought name grant 1 before).plus (r.plus (brought name grant (before.length + 2) after))

/-- An element that is alone in its document is all that is read. -/
@[simp] theorem between_nil (r : Reading) : between name grant [] r [] = r :=
  Reading.empty_plus r

theorem read_between {bs : List UInt8} {n : Node} {before after : List Element}
    (h : Stands n name (.ofBytes bs) before after) {o : Outcome}
    (ho : grant (before.length + 1) n = some o) :
    (survey name grant bs).read .lenient = .ok (between name grant before o.share after) := by
  obtain ⟨hmarked, e, helements, hnode⟩ := h
  have houtcome : outcome name grant e.source (before.length + 1) = o := by
    rw [outcome, hnode, Option.bind_some, ho]
  have hdocument : Document.ofBytes bs = ⟨false, (Document.ofBytes bs).text⟩ :=
    hmarked ▸ rfl
  have hsurvey : survey name grant bs =
      ⟨outcomes name grant 1 ((before ++ e :: after).map Element.source), .complete⟩ := by
    rw [survey_of_document hdocument, ← hdocument, helements]
    rfl
  rw [Survey.read_lenient_eq, hsurvey]
  dsimp only [Ending.close]
  rw [List.map_append, List.map_cons, outcomes_append, outcomes_cons, List.length_map,
    Nat.add_comm 1, houtcome, shares_append, shares, shares, List.map_cons, Reading.total_cons]
  rfl

/-- Each element of the name that was written stands in the document. -/
theorem exists_stands_written {s : Sheet} (h : s.Fits) {o : Outline} {os os' : List Outline}
    (ho : s.root.found name.toList = os ++ o :: os') :
    ∃ before after, before.length = os.length ∧ after.length = os'.length ∧
      Stands o.node name (.ofBytes (Text.Utf8.encode s.write)) before after := by
  obtain ⟨es, helements, hkeys⟩ := Sheet.exists_elements_write h name.toList
  rw [ho, List.map_append, List.map_cons] at hkeys
  obtain ⟨before, rest, rfl, hbefore, hrest⟩ := List.map_eq_append_iff.mp hkeys
  obtain ⟨e, after, rfl, he, hafter⟩ := List.map_eq_cons_iff.mp hrest
  have hmem : o ∈ s.root.found name.toList := ho ▸ List.mem_append_right _ List.mem_cons_self
  rw [Sheet.ofBytes_write h]
  refine ⟨before, after, ?_, ?_, rfl, e, helements, ?_⟩
  · simpa using congrArg List.length hbefore
  · simpa using congrArg List.length hafter
  · exact Outline.ofFragment?_source (h.root.found o hmem) he

end Markup

namespace Format

open Xml Xml.Outline Text.Utf8

/-- An element that can be read to its end contributes the product of its keys and its windows to
its document, whatever stands between its parts and wherever it stands. No byte order mark stands in
front of the document. The keys of an item are its
serial numbers in normal form that are not empty, each once and in their order, those of a holding
are its electronic ones before its printed ones. The windows come from the coverages or entitlements
in their order, where of an entitlement the delay of the beginning decides, unless it is blank. -/
theorem parse_element :
    (∀ (c : Google.Contents) (n : Node), c.In n →
      ∀ (bs : List UInt8) (before after : List Element),
        Markup.Stands n "item" (.ofBytes bs) before after →
        ∃ r : Reading, r.IsProduct c.keys c.windows ∧ Format.google.parse .lenient bs =
          .ok (Markup.between "item" Google.item? before r after)) ∧
    (∀ (c : Ezb.Contents) (n : Node), c.In n →
      ∀ (bs : List UInt8) (before after : List Element),
        Markup.Stands n "holding" (.ofBytes bs) before after →
        ∃ r : Reading, r.IsProduct c.keys c.windows ∧ Format.ezb.parse .lenient bs =
          .ok (Markup.between "holding" Ezb.holding? before r after)) := by
  constructor
  · intro c n hc bs before after hstands
    obtain ⟨o, ho, hproduct⟩ := hc.isProduct (before.length + 1)
    exact ⟨o.share, hproduct, Markup.read_between hstands ho⟩
  · intro c n hc bs before after hstands
    obtain ⟨o, ho, hproduct⟩ := hc.isProduct (before.length + 1)
    exact ⟨o.share, hproduct, Markup.read_between hstands ho⟩

/-- An item whose serial numbers and coverages stand between each other and around another element.
One serial number comes twice, one is empty, and one coverage has days that make no embargo. -/
def mixedItem : Outline :=
  ofChildren "item" [ofText "issn" "1234-5678",
    ofChildren "coverage" [ofChildren "embargo" [ofText "days_not_available" "soon"]],
    ofText "note" "A", ofText "issn" "12345678", ofChildren "coverage" [], ofText "issn" "",
    ofText "issn" "2222-2222"]

/-- The item between two that have no serial numbers. -/
def mixedItems : Sheet :=
  .ofRoot (ofChildren "items" [ofChildren "item" [], mixedItem, ofChildren "item" []])

/-- What the item says. -/
def mixedItemContents : Google.Contents where
  serials := ["1234-5678", "12345678", "", "2222-2222"]
  coverages := [⟨.missing, .missing, "soon"⟩, ⟨.missing, .missing, ""⟩]

/-- A holding whose print edition comes first, and twice. The first of its entitlements begins with
a delay that is blank, the other one with a delay that makes no embargo. -/
def mixedHolding : Outline :=
  ofChildren "holding" [
    ofChildren "EZBIssns" [ofText "p-issn" "1111-1111", ofText "note" "A",
      ofText "e-issn" "22222222", ofText "p-issn" "11111111"],
    ofChildren "entitlements" [
      ofChildren "entitlement" [ofChildren "begin" [ofText "delay" "\u2003"],
        ofChildren "end" [ofText "delay" "-1Y"]],
      ofText "note" "A",
      ofChildren "entitlement" [ofChildren "end" [ofText "delay" "-1Y"],
        ofChildren "begin" [ofText "delay" "later"]]]]

/-- The holding alone in its document. -/
def mixedHoldings : Sheet := .ofRoot mixedHolding

/-- What the holding says. -/
def mixedHoldingContents : Ezb.Contents where
  print := ["1111-1111", "11111111"]
  electronic := ["22222222"]
  entitlements := [⟨⟨"", "", "", "\u2003"⟩, ⟨"", "", "", "-1Y"⟩⟩,
    ⟨⟨"", "", "", "later"⟩, ⟨"", "", "", "-1Y"⟩⟩]

theorem fits_mixedItems : mixedItems.Fits := by
  have hnothing : (ofChildren "item" []).Fits := fits_ofChildren (by decide) trivial
  have hserial : (ofText "issn" "1234-5678").Fits :=
    fits_ofText (by decide) (forall_mem_of_all (by decide))
  have hdays : (ofText "days_not_available" "soon").Fits :=
    fits_ofText (by decide) (forall_mem_of_all (by decide))
  have hnote : (ofText "note" "A").Fits :=
    fits_ofText (by decide) (forall_mem_of_all (by decide))
  have hagain : (ofText "issn" "12345678").Fits :=
    fits_ofText (by decide) (forall_mem_of_all (by decide))
  have hempty : (ofText "issn" "").Fits :=
    fits_ofText (by decide) (forall_mem_of_all (by decide))
  have hother : (ofText "issn" "2222-2222").Fits :=
    fits_ofText (by decide) (forall_mem_of_all (by decide))
  have hcoverage : (ofChildren "coverage" []).Fits := fits_ofChildren (by decide) trivial
  have hwithheld : (ofChildren "coverage" [ofChildren "embargo"
      [ofText "days_not_available" "soon"]]).Fits :=
    fits_ofChildren (by decide) ⟨fits_ofChildren (by decide) ⟨hdays, trivial⟩, trivial⟩
  have hitem : mixedItem.Fits := fits_ofChildren (by decide)
    ⟨hserial, hwithheld, hnote, hagain, hcoverage, hempty, hother, trivial⟩
  exact Sheet.fits_ofRoot (fits_ofChildren (by decide) ⟨hnothing, hitem, hnothing, trivial⟩)

theorem fits_mixedHoldings : mixedHoldings.Fits := by
  have hprint : (ofText "p-issn" "1111-1111").Fits :=
    fits_ofText (by decide) (forall_mem_of_all (by decide))
  have hnote : (ofText "note" "A").Fits :=
    fits_ofText (by decide) (forall_mem_of_all (by decide))
  have honline : (ofText "e-issn" "22222222").Fits :=
    fits_ofText (by decide) (forall_mem_of_all (by decide))
  have hagain : (ofText "p-issn" "11111111").Fits :=
    fits_ofText (by decide) (forall_mem_of_all (by decide))
  have hblank : (ofText "delay" "\u2003").Fits :=
    fits_ofText (by decide) (forall_mem_of_all (by decide))
  have hyear : (ofText "delay" "-1Y").Fits :=
    fits_ofText (by decide) (forall_mem_of_all (by decide))
  have hlater : (ofText "delay" "later").Fits :=
    fits_ofText (by decide) (forall_mem_of_all (by decide))
  have hend : (ofChildren "end" [ofText "delay" "-1Y"]).Fits :=
    fits_ofChildren (by decide) ⟨hyear, trivial⟩
  have hserials : (ofChildren "EZBIssns" [ofText "p-issn" "1111-1111", ofText "note" "A",
      ofText "e-issn" "22222222", ofText "p-issn" "11111111"]).Fits :=
    fits_ofChildren (by decide) ⟨hprint, hnote, honline, hagain, trivial⟩
  have hfirst : (ofChildren "begin" [ofText "delay" "\u2003"]).Fits :=
    fits_ofChildren (by decide) ⟨hblank, trivial⟩
  have hsecond : (ofChildren "begin" [ofText "delay" "later"]).Fits :=
    fits_ofChildren (by decide) ⟨hlater, trivial⟩
  refine Sheet.fits_ofRoot (fits_ofChildren (by decide)
    ⟨hserials, fits_ofChildren (by decide) ⟨?_, hnote, ?_, trivial⟩, trivial⟩)
  · exact fits_ofChildren (by decide) ⟨hfirst, hend, trivial⟩
  · exact fits_ofChildren (by decide) ⟨hend, hsecond, trivial⟩

/-- The item brings its second window for two serial numbers, the holding its first one. -/
theorem parse_element_mixed :
    (mixedItemContents.In mixedItem.node ∧ ∃ before after,
      Markup.Stands mixedItem.node "item" (.ofBytes (encode mixedItems.write)) before after ∧
      ∃ r : Reading, r.IsProduct ["1234-5678", "2222-2222"]
          [none, some ⟨.parse "" "" "", .parse "" "" "", .absent⟩] ∧
        Format.google.parse .lenient (encode mixedItems.write) =
          .ok (Markup.between "item" Google.item? before r after)) ∧
    (mixedHoldingContents.In mixedHolding.node ∧
      Markup.Stands mixedHolding.node "holding" (.ofBytes (encode mixedHoldings.write)) [] [] ∧
      ∃ r : Reading, r.IsProduct ["2222-2222", "1111-1111"]
          [some ⟨.parse "" "" "", .parse "" "" "", ⟨-31536000, false, .year⟩⟩, none] ∧
        Format.ezb.parse .lenient (encode mixedHoldings.write) = .ok r) := by
  constructor
  · have hsaid : mixedItemContents.In mixedItem.node := by decide +kernel
    have hkeys : mixedItemContents.keys = ["1234-5678", "2222-2222"] := by decide +kernel
    have hwindows : mixedItemContents.windows =
        [none, some ⟨.parse "" "" "", .parse "" "" "", .absent⟩] := rfl
    have hfound : mixedItems.root.found "item".toList =
        [ofChildren "item" []] ++ mixedItem :: [ofChildren "item" []] := rfl
    obtain ⟨before, after, -, -, hstands⟩ := Markup.exists_stands_written fits_mixedItems hfound
    have hread := parse_element.1 _ _ hsaid _ before after hstands
    rw [hkeys, hwindows] at hread
    exact ⟨hsaid, before, after, hstands, hread⟩
  · have hsaid : mixedHoldingContents.In mixedHolding.node := by decide +kernel
    have hkeys : mixedHoldingContents.keys = ["2222-2222", "1111-1111"] := by decide +kernel
    have hwindows : mixedHoldingContents.windows =
        [some ⟨.parse "" "" "", .parse "" "" "", ⟨-31536000, false, .year⟩⟩, none] := rfl
    have hfound : mixedHoldings.root.found "holding".toList = [] ++ mixedHolding :: [] := rfl
    obtain ⟨before, after, hbefore, hafter, hstands⟩ :=
      Markup.exists_stands_written fits_mixedHoldings hfound
    obtain rfl := List.eq_nil_of_length_eq_zero hbefore
    obtain rfl := List.eq_nil_of_length_eq_zero hafter
    have hread := parse_element.2 _ _ hsaid _ [] [] hstands
    simp only [hkeys, hwindows, Markup.between_nil] at hread
    exact ⟨hsaid, hstands, hread⟩

end Format

end Holdings
