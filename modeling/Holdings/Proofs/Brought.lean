import Holdings.Format
import Holdings.Proofs.Contents
import Holdings.Proofs.Fields
import Holdings.Proofs.Product
/-!
# What documents of one record bring

A document of one record brings one licence for the serial numbers of the record, or nothing at
all. For a table with one line (`Kbart.brings`), an EZB document with one holding
(`Ezb.brings`) and a Google Scholar document with one item (`Google.brings`) it is told from the
texts that were written which licence this is: the boundaries are read the same way from all three
of them, only the notation of the embargo differs.
-/

namespace Holdings

/-! ## One record -/

/-- A reading succeeds and brings a licence for some serial numbers, or nothing at all. -/
def Brings (x : Except DocumentFault Reading) (serials : List Issn) (l : Option Licence) : Prop :=
  ∃ r, x = .ok r ∧
    (∀ id, id ∈ r.registry.identifiers ↔ l.isSome = true ∧ id ∈ serials.map Issn.text) ∧
    ∀ id, r.registry.lookup id =
      if Issn.normalize id ∈ serials.map Issn.text then l.toList else []

section

variable {serials : List Issn}

theorem mem_distinct_text {id : String} :
    id ∈ distinct (serials.map Issn.text) ↔ id ∈ serials.map Issn.text := by
  rw [mem_distinct]
  constructor
  · exact And.left
  · intro h
    obtain ⟨i, -, rfl⟩ := List.mem_map.mp h
    exact ⟨h, Issn.isEmpty_text i⟩

/-- A refused record brings nothing under the lenient policy. -/
theorem brings_refused (fault : RecordFault) :
    Brings ((⟨[.refused fault], .complete⟩ : Survey).read .lenient) serials none := by
  have hregistry : (Outcome.refused fault).share.registry = .empty :=
    (Outcome.files_share (.refused fault)).registry
  refine ⟨_, Survey.read_singleton _, fun id => ?_, fun id => ?_⟩
  · rw [hregistry]
    simp [Registry.identifiers, Registry.empty, Keyed.keys, Keyed.empty]
  · rw [hregistry, Registry.lookup_empty, Option.toList_none, ite_self]

/-- A record of one licence brings it for its serial numbers, or nothing if it is at fault. -/
theorem brings_ofRecord (serials : List Issn) (record : Nat) (l : Except RecordFault Licence) :
    Brings ((⟨[.ofRecord record (serials.map Issn.text) [l]], .complete⟩ : Survey).read .lenient)
      serials l.toOption := by
  have hkeys : ∀ key ∈ distinct (serials.map Issn.text), Issn.normalize key = key := by
    intro key hkey
    obtain ⟨i, -, rfl⟩ := List.mem_map.mp (mem_distinct_text.mp hkey)
    exact Issn.normalize_text i
  have hfiles := Outcome.files_ofRecord record (serials.map Issn.text) [l]
  rw [List.map_singleton, List.reduceOption_singleton] at hfiles
  refine ⟨_, Survey.read_singleton _, fun id => ?_, fun id => ?_⟩
  · rw [hfiles.registry, Registry.identifiers_crossed hkeys (eraseDups_eraseDups _)]
    cases l with
    | error fault => simp [Except.toOption]
    | ok l => simp [Except.toOption, mem_distinct_text]
  · rw [hfiles.registry, Registry.lookup_crossed hkeys (nodup_distinct _)]
    simp only [mem_distinct_text]

end

/-! ## Tables -/

namespace Kbart

open Rows Text.Utf8

/-- A table with one line brings a licence for the serial numbers in it. -/
theorem brings {t : Table} {l : Line} (ht : t.Fits) (h : l.Fits) :
    Brings (Format.kbart.parse .lenient (encode (t.write l.write))) l.serials
      ((Embargo.ofKbart? (String.ofList l.embargo)).map fun embargo =>
        ⟨l.first.signature, l.last.signature, embargo⟩) := by
  obtain ⟨number, hsurvey⟩ := survey_written ht h
  show Brings ((survey (encode (t.write l.write))).read .lenient) _ _
  rw [hsurvey, outcome_line h]
  cases Embargo.ofKbart? (String.ofList l.embargo) with
  | none => exact brings_refused _
  | some embargo => exact brings_ofRecord l.serials number (.ok _)

end Kbart

/-! ## Texts in markup -/

namespace Embargo

theorem ofDelay?_trimBlanks (s : List Char) :
    ofDelay? (String.ofList (Xml.trimBlanks s)) = ofDelay? (String.ofList s) := by
  rw [ofDelay?, ofDelay?, String.toList_ofList, String.toList_ofList, Xml.trim_trimBlanks]

theorem ofDays?_trimBlanks (s : List Char) :
    ofDays? (String.ofList (Xml.trimBlanks s)) = ofDays? (String.ofList s) := by
  rw [ofDays?, ofDays?, String.toList_ofList, String.toList_ofList, Xml.trim_trimBlanks]

end Embargo

/-- A boundary without any text. -/
def Written.nothing : Written := ⟨[], [], []⟩

/-- The signature of texts from which markup has taken blanks. -/
theorem Written.parse_trimBlanks (w : Written) :
    Signature.parse (String.ofList (Xml.trimBlanks w.date))
      (String.ofList (Xml.trimBlanks w.volume)) (String.ofList (Xml.trimBlanks w.issue)) =
        w.signature := by
  apply Signature.parse_of_trim <;> rw [String.toList_ofList, Xml.trim_trimBlanks]

/-- Whether no text of a boundary has an ampersand in it. -/
structure Written.Unreferenced (w : Written) : Prop where
  date : '&' ∉ w.date
  volume : '&' ∉ w.volume
  issue : '&' ∉ w.issue

/-- A serial number is read from markup as it was written. -/
theorem normalize_trimBlanks (i : Issn) :
    Issn.normalize (String.ofList (Xml.trimBlanks i.canonical)) = i.text := by
  have htrim : Text.trimmed (String.ofList (Xml.trimBlanks i.canonical)) = Text.trimmed i.text := by
    rw [Text.trimmed, String.toList_ofList, Xml.trim_trimBlanks, Text.trimmed, Issn.text,
      String.toList_ofList]
  rw [← Issn.normalize_trimmed, htrim, Issn.normalize_trimmed, Issn.normalize_text]

theorem map_normalize_canonical (serials : List Issn) :
    ((serials.map Issn.canonical).map fun text => String.ofList (Xml.trimBlanks text)).map
      Issn.normalize = serials.map Issn.text := by
  simp only [List.map_map, Function.comp_def, normalize_trimBlanks]

theorem canonical_unreferenced {serials : List Issn} :
    ∀ text ∈ serials.map Issn.canonical, '&' ∉ text := by
  intro text htext hm
  obtain ⟨i, -, rfl⟩ := List.mem_map.mp htext
  have hcompact : '&' ∈ i.compact → False := by
    intro h
    rcases Issn.mem_compact h with hd | he
    · cases hd
    · cases he
  rcases List.mem_append.mp hm with h | h
  · exact hcompact (List.mem_of_mem_take h)
  · rcases List.mem_cons.mp h with h | h
    · cases h
    · exact hcompact (List.mem_of_mem_drop h)

/-! ## EZB -/

namespace Ezb

open Xml

/-- What a holding of one entitlement says. -/
structure Holding where
  print : List Issn
  electronic : List Issn
  first : Written
  last : Written
  delay : List Char
  lastDelay : List Char

/-- The serial numbers of a holding, electronic editions first. -/
def Holding.serials (h : Holding) : List Issn := h.electronic ++ h.print

/-- The delay that counts. -/
def Holding.countedDelay (h : Holding) : List Char :=
  if Text.trim h.delay = [] then h.lastDelay else h.delay

/-- No text of a holding has an ampersand in it, and it has serial numbers. -/
structure Holding.Fits (h : Holding) : Prop where
  first : h.first.Unreferenced
  last : h.last.Unreferenced
  delay : '&' ∉ h.delay
  lastDelay : '&' ∉ h.lastDelay
  serials_ne : h.serials ≠ []

/-- An element says where an entitlement begins or ends. -/
def SaysBoundary (o : Outline) (key : String) (w : Written) (delay : List Char) : Prop :=
  o.Holds key (w = .nothing ∧ delay = []) fun x =>
    x.Says "year" w.date ∧ x.Says "volume" w.volume ∧ x.Says "issue" w.issue ∧
      x.Says "delay" delay

/-- An element says what a holding says. -/
structure Holding.SaidBy (h : Holding) (o : Outline) : Prop where
  serials : ∃ x, o.named "EZBIssns" = [x] ∧
    (x.named "p-issn").map Outline.text? = (h.print.map Issn.canonical).map some ∧
    (x.named "e-issn").map Outline.text? = (h.electronic.map Issn.canonical).map some
  entitlement : ∃ x e, o.named "entitlements" = [x] ∧ x.named "entitlement" = [e] ∧
    SaysBoundary e "begin" h.first h.delay ∧ SaysBoundary e "end" h.last h.lastDelay

/-- A boundary as it is read from texts. -/
def Boundary.ofTexts (w : Written) (delay : List Char) : Boundary :=
  ⟨String.ofList (trimBlanks w.date), String.ofList (trimBlanks w.volume),
    String.ofList (trimBlanks w.issue), String.ofList (trimBlanks delay)⟩

theorem in_node_boundary {e : Outline} (he : e.Fits) {key : String} {w : Written}
    {delay : List Char} (hw : w.Unreferenced) (hdelay : '&' ∉ delay)
    (h : SaysBoundary e key w delay) :
    e.node.Holds key (Boundary.ofTexts w delay = .missing) (Boundary.ofTexts w delay).In := by
  apply Outline.Holds.node he h
  · rintro ⟨rfl, rfl⟩
    rfl
  · rintro x hx ⟨hyear, hvolume, hissue, htold⟩
    exact ⟨Outline.regular_node hx [], hyear.node hx hw.date, hvolume.node hx hw.volume,
      hissue.node hx hw.issue, htold.node hx hdelay⟩

/-- The texts of serial numbers as they are read. -/
def textsOf (serials : List Issn) : List String :=
  (serials.map Issn.canonical).map fun text => String.ofList (trimBlanks text)

/-- What a holding says, as it is read from texts. -/
def Holding.contents (h : Holding) : Contents :=
  ⟨textsOf h.print, textsOf h.electronic,
    [⟨.ofTexts h.first h.delay, .ofTexts h.last h.lastDelay⟩]⟩

theorem isEmpty_trimmed (s : List Char) :
    (Text.trimmed (String.ofList (trimBlanks s))).isEmpty = decide (Text.trim s = []) := by
  rw [Bool.eq_iff_iff, String.isEmpty_iff, decide_eq_true_iff, ← String.toList_eq_nil_iff,
    Text.toList_trimmed, String.toList_ofList, trim_trimBlanks]

/-- The delay of the beginning counts, or that of the end if it is blank. -/
theorem delay_ofTexts (h : Holding) :
    (Entitlement.mk (.ofTexts h.first h.delay) (.ofTexts h.last h.lastDelay)).delay =
      String.ofList (trimBlanks h.countedDelay) := by
  have hcut : (Entitlement.mk (.ofTexts h.first h.delay) (.ofTexts h.last h.lastDelay)).delay =
      if decide (Text.trim h.delay = []) = true then String.ofList (trimBlanks h.lastDelay)
      else String.ofList (trimBlanks h.delay) := by
    rw [← isEmpty_trimmed]
    rfl
  rw [hcut, Holding.countedDelay]
  by_cases hblank : Text.trim h.delay = []
  · simp only [hblank, decide_true, if_true]
  · simp only [hblank, decide_false, if_false, Bool.false_eq_true]

/-- The licence of an entitlement, or nothing if its delay is at fault. -/
theorem toOption_licence (h : Holding) :
    (Entitlement.mk (.ofTexts h.first h.delay) (.ofTexts h.last h.lastDelay)).licence.toOption =
      (Embargo.ofDelay? (String.ofList h.countedDelay)).map fun embargo =>
        ⟨h.first.signature, h.last.signature, embargo⟩ := by
  have hfirst : (Boundary.ofTexts h.first h.delay).signature = h.first.signature :=
    h.first.parse_trimBlanks
  have hlast : (Boundary.ofTexts h.last h.lastDelay).signature = h.last.signature :=
    h.last.parse_trimBlanks
  rw [Entitlement.toOption_licence, delay_ofTexts, Embargo.ofDelay?_trimBlanks, hfirst, hlast]

/-- What an element was written to say is in its node. -/
theorem Holding.in_node {h : Holding} (hh : h.Fits) {o : Outline} (ho : o.Fits)
    (hs : h.SaidBy o) : h.contents.In o.node where
  regular := Outline.regular_node ho []
  serials := by
    obtain ⟨x, hx, hprint, helectronic⟩ := hs.serials
    have hxfits : x.Fits := ho.named (hx ▸ List.mem_singleton_self x)
    refine .inr ⟨x.node, by rw [Outline.named_node ho, hx, List.map_singleton], ?_, ?_, ?_⟩
    · exact Outline.regular_node hxfits _
    · exact Outline.lists_node hxfits hprint canonical_unreferenced
    · exact Outline.lists_node hxfits helectronic canonical_unreferenced
  entitlements := by
    obtain ⟨x, e, hx, he, hfirst, hlast⟩ := hs.entitlement
    have hxfits : x.Fits := ho.named (hx ▸ List.mem_singleton_self x)
    have hefits : e.Fits := hxfits.named (he ▸ List.mem_singleton_self e)
    refine .inr ⟨x.node, by rw [Outline.named_node ho, hx, List.map_singleton],
      Outline.regular_node hxfits _, ?_⟩
    rw [Outline.named_node hxfits, he]
    exact .cons ⟨Outline.regular_node hefits [],
      in_node_boundary hefits hh.first hh.delay hfirst,
      in_node_boundary hefits hh.last hh.lastDelay hlast⟩ .nil

/-- A holding is read as a record of one licence. -/
theorem holding?_node {h : Holding} (hh : h.Fits) {o : Outline} (ho : o.Fits) (hs : h.SaidBy o)
    (index : Nat) :
    ∃ l, holding? index o.node = some (.ofRecord index (h.serials.map Issn.text) [l]) ∧
      l.toOption = (Embargo.ofDelay? (String.ofList h.countedDelay)).map fun embargo =>
        ⟨h.first.signature, h.last.signature, embargo⟩ := by
  have hids : (textsOf h.electronic ++ textsOf h.print).map Issn.normalize =
      h.serials.map Issn.text := by
    rw [List.map_append, textsOf, textsOf, map_normalize_canonical, map_normalize_canonical,
      ← List.map_append]
    rfl
  refine ⟨_, ?_, toOption_licence h⟩
  rw [← hids]
  exact (h.in_node hh ho hs).holding?_eq index

/-- A document with one holding brings a licence for the serial numbers of the holding. -/
theorem brings {h : Holding} (hh : h.Fits) {s : Sheet} (hs : s.Fits) {o : Outline}
    (ho : s.root.found "holding".toList = [o]) (hsaid : h.SaidBy o) :
    Brings (Format.ezb.parse .lenient (Text.Utf8.encode s.write)) h.serials
      ((Embargo.ofDelay? (String.ofList h.countedDelay)).map fun embargo =>
        ⟨h.first.signature, h.last.signature, embargo⟩) := by
  have hfits : o.Fits := hs.root.found o (ho ▸ List.mem_singleton_self o)
  obtain ⟨l, hread, hl⟩ := holding?_node hh hfits hsaid 1
  have hsurvey : survey (Text.Utf8.encode s.write) =
      ⟨[.ofRecord 1 (h.serials.map Issn.text) [l]], .complete⟩ := by
    rw [survey, Markup.survey_written hs, ho]
    simp only [List.zipIdx_singleton, List.map_singleton, hread, Option.getD_some]
  show Brings ((survey (Text.Utf8.encode s.write)).read .lenient) _ _
  rw [hsurvey, ← hl]
  exact brings_ofRecord h.serials 1 l

end Ezb

/-! ## Google Scholar -/

namespace Google

open Xml

/-- What an item of one coverage says. -/
structure Item where
  serials : List Issn
  first : Written
  last : Written
  days : List Char

/-- No text of an item has an ampersand in it, and it has serial numbers. -/
structure Item.Fits (i : Item) : Prop where
  first : i.first.Unreferenced
  last : i.last.Unreferenced
  days : '&' ∉ i.days
  serials_ne : i.serials ≠ []

/-- An element says where a coverage begins or ends. -/
def SaysBoundary (o : Outline) (key : String) (w : Written) : Prop :=
  o.Holds key (w = .nothing) fun x =>
    x.Says "year" w.date ∧ x.Says "volume" w.volume ∧ x.Says "issue" w.issue

/-- An element says how many days are not available. -/
def SaysDays (o : Outline) (days : List Char) : Prop :=
  o.Holds "embargo" (days = []) fun x => x.Says "days_not_available" days

/-- An element says what an item says. -/
structure Item.SaidBy (i : Item) (o : Outline) : Prop where
  serials : (o.named "issn").map Outline.text? = (i.serials.map Issn.canonical).map some
  coverage : ∃ x, o.named "coverage" = [x] ∧ SaysBoundary x "from" i.first ∧
    SaysBoundary x "to" i.last ∧ SaysDays x i.days

/-- A boundary as it is read from texts. -/
def Boundary.ofTexts (w : Written) : Boundary :=
  ⟨String.ofList (trimBlanks w.date), String.ofList (trimBlanks w.volume),
    String.ofList (trimBlanks w.issue)⟩

/-- What an item says, as it is read from texts. -/
def Item.contents (i : Item) : Contents :=
  ⟨(i.serials.map Issn.canonical).map fun text => String.ofList (trimBlanks text),
    [⟨.ofTexts i.first, .ofTexts i.last, String.ofList (trimBlanks i.days)⟩]⟩

theorem in_node_boundary {x : Outline} (hx : x.Fits) {key : String} {w : Written}
    (hw : w.Unreferenced) (h : SaysBoundary x key w) :
    x.node.Holds key (Boundary.ofTexts w = .missing) (Boundary.ofTexts w).In := by
  apply Outline.Holds.node hx h
  · rintro rfl
    rfl
  · rintro y hy ⟨hyear, hvolume, hissue⟩
    exact ⟨Outline.regular_node hy [], hyear.node hy hw.date, hvolume.node hy hw.volume,
      hissue.node hy hw.issue⟩

/-- What an element was written to say is in its node. -/
theorem Item.in_node {i : Item} (hi : i.Fits) {o : Outline} (ho : o.Fits) (hs : i.SaidBy o) :
    i.contents.In o.node where
  regular := Outline.regular_node ho _
  serials := Outline.lists_node ho hs.serials canonical_unreferenced
  coverages := by
    obtain ⟨x, hx, hfirst, hlast, hdays⟩ := hs.coverage
    have hxfits : x.Fits := ho.named (hx ▸ List.mem_singleton_self x)
    have hembargo : x.node.Holds "embargo" (String.ofList (trimBlanks i.days) = "") fun y =>
        y.Regular [] ∧ y.Says "days_not_available" (String.ofList (trimBlanks i.days)) := by
      apply Outline.Holds.node hxfits hdays
      · intro hnone
        rw [hnone]
        rfl
      · exact fun y hy htold => ⟨Outline.regular_node hy [], htold.node hy hi.days⟩
    rw [Outline.named_node ho, hx]
    exact .cons ⟨Outline.regular_node hxfits [], in_node_boundary hxfits hi.first hfirst,
      in_node_boundary hxfits hi.last hlast, hembargo⟩ .nil

/-- An item is read as a record of one licence. -/
theorem item?_node {i : Item} (hi : i.Fits) {o : Outline} (ho : o.Fits) (hs : i.SaidBy o)
    (index : Nat) :
    item? index o.node = some (.ofRecord index (i.serials.map Issn.text)
      [licence i.first.signature i.last.signature (String.ofList (trimBlanks i.days))]) := by
  have hfirst : (Boundary.ofTexts i.first).signature = i.first.signature :=
    i.first.parse_trimBlanks
  have hlast : (Boundary.ofTexts i.last).signature = i.last.signature := i.last.parse_trimBlanks
  rw [(i.in_node hi ho hs).item?_eq, Item.contents, map_normalize_canonical, List.map_singleton,
    hfirst, hlast]

/-- A document with one item brings a licence for the serial numbers of the item. -/
theorem brings {i : Item} (hi : i.Fits) {s : Sheet} (hs : s.Fits) {o : Outline}
    (ho : s.root.found "item".toList = [o]) (hsaid : i.SaidBy o) :
    Brings (Format.google.parse .lenient (Text.Utf8.encode s.write)) i.serials
      ((Embargo.ofDays? (String.ofList i.days)).map fun embargo =>
        ⟨i.first.signature, i.last.signature, embargo⟩) := by
  have hfits : o.Fits := hs.root.found o (ho ▸ List.mem_singleton_self o)
  have hsurvey : survey (Text.Utf8.encode s.write) =
      ⟨[.ofRecord 1 (i.serials.map Issn.text)
        [licence i.first.signature i.last.signature (String.ofList (trimBlanks i.days))]],
        .complete⟩ := by
    rw [survey, Markup.survey_written hs, ho]
    simp only [List.zipIdx_singleton, List.map_singleton, item?_node hi hfits hsaid 1,
      Option.getD_some]
  show Brings ((survey (Text.Utf8.encode s.write)).read .lenient) _ _
  rw [hsurvey, ← Embargo.ofDays?_trimBlanks, ← toOption_licence]
  exact brings_ofRecord i.serials 1 _

end Google

end Holdings
