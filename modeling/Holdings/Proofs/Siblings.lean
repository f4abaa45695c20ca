import Holdings.Proofs.Mark
import Holdings.Proofs.Splitting
/-!
# Elements side by side

An element is cut out of a document with all that is in it and read by itself, so it does not matter
what stands beside it. Elements that are written one after the other between the tags of a root are
cut out one after the other, each from its first character to its last
(`keys_elements_framed`), whatever they hold: elements of the same name that are inside belong to
them, and comments or character data may look like tags. What is read from all of them together is
the total of what is read from each of them alone, and one that cannot be read leaves the others as
they are (`Format.parse_framed`).
-/

namespace Holdings

namespace Xml

open Outline (openLexeme closeLexeme)

/-! ## Elements in a root -/

/-- A text between the tags of a root. -/
def framed (s : List Char) : List Char := "<r>".toList ++ (s ++ "</r>".toList)

/-- The tags of the root around some lexemes. -/
def framedLexemes (ls : List Lexeme) : List Lexeme :=
  openLexeme ['r'] [] :: (ls ++ [closeLexeme ['r']])

/-- A text that is exactly one complete element of a local name: between the tags of a root it can
be read to its end, and it is read as the lexemes of such an element. -/
def IsElement (wanted s : List Char) : Prop :=
  ∃ name ls, localName name = wanted ∧ Whole name ls ∧ rawOf ls = s ∧
    scan (framed s) = ⟨framedLexemes ls, true⟩

theorem tokens_framed (s : List Char) :
    tokens (framed s) = (tokens (s ++ "</r>".toList)).prepend [openLexeme ['r'] []] := by
  have hroot : NameFits ['r'] := by decide
  exact Outline.tokens_openBody hroot attributesFit_nil (s ++ "</r>".toList)

theorem tokens_rootEnd : tokens "</r>".toList = ⟨[closeLexeme ['r']], true⟩ := by
  have hroot : NameFits ['r'] := by decide
  have h := Outline.tokens_closeBody hroot []
  rw [List.append_nil, tokens] at h
  exact h

/-- A name and lexemes that are an element of a local name wherever a tag comes after them. -/
structure Standing (wanted : List Char) (e : List Char × List Lexeme) : Prop where
  localName_eq : localName e.1 = wanted
  whole : Whole e.1 e.2
  head?_raw : (rawOf e.2).head? = some '<'
  tokens_append : ∀ u : List Char, (∀ c, u.head? = some c → c = '<') →
    tokens (rawOf e.2 ++ u) = (tokens u).prepend e.2

theorem Whole.exists_cons {name : List Char} {ls : List Lexeme} (h : Whole name ls) :
    ∃ l rest, ls = l :: rest ∧ ∀ content, l.token ≠ .text content := by
  cases h with
  | empty => exact ⟨_, _, rfl, fun _ htext => by cases htext⟩
  | tags _ => exact ⟨_, _, rfl, fun _ htext => by cases htext⟩

theorem IsElement.exists_standing {wanted s : List Char} (h : IsElement wanted s) :
    ∃ e, rawOf e.2 = s ∧ Standing wanted e := by
  obtain ⟨name, ls, hname, hwhole, rfl, hscan⟩ := h
  obtain ⟨more, hmore⟩ := nested_prefix (tokens (framed (rawOf ls))).intact []
    (tokens (framed (rawOf ls))).lexemes
  -- A tag comes after the element, the one that closes the root, so any other tag may.
  have hlexemes : (tokens (rawOf ls ++ "</r>".toList)).lexemes =
      ls ++ closeLexeme ['r'] :: more := by
    have hall := (congrArg (· ++ more) (congrArg Scan.lexemes hscan)).symm.trans hmore
    rw [tokens_framed] at hall
    have htail : ls ++ [closeLexeme ['r']] ++ more = (tokens (rawOf ls ++ "</r>".toList)).lexemes :=
      (List.cons.inj hall).2
    rw [← htail, List.append_assoc, List.singleton_append]
  refine ⟨(name, ls), rfl, hname, hwhole, ?_, fun u hu => tokens_span hlexemes hu⟩
  obtain ⟨l, rest, rfl, hl⟩ := hwhole.exists_cons
  have hhead := head?_raw_of_tag hlexemes hl
  rw [rawOf, List.flatMap_cons, List.head?_append, hhead]
  rfl

/-- Whatever is written as an element is one. -/
theorem Outline.isElement {o : Outline} (h : o.Fits) : IsElement o.name o.element := by
  have hcontent : Content (framedLexemes o.lexemes) := .element o.whole_lexemes.content .nil
  refine ⟨o.name, o.lexemes, localName_of_fits h.nameFits, o.whole_lexemes, rawOf_lexemes o, ?_⟩
  rw [scan, tokens_framed, tokens_element o h, tokens_rootEnd]
  exact hcontent.nested_eq true

/-! ## Elements one after the other -/

section

variable {wanted : List Char} {es : List (List Char × List Lexeme)}

/-- The lexemes of elements that are written one after the other. -/
def lexemesOf (es : List (List Char × List Lexeme)) : List Lexeme := es.flatMap Prod.snd

theorem head?_lexemesOf_append (hes : ∀ e ∈ es, Standing wanted e) {u : List Char}
    (hu : ∀ c, u.head? = some c → c = '<') :
    ∀ c, (rawOf (lexemesOf es) ++ u).head? = some c → c = '<' := by
  intro c hc
  cases es with
  | nil => exact hu c hc
  | cons e es =>
      have he := (hes e List.mem_cons_self).head?_raw
      rw [lexemesOf, List.flatMap_cons, Outline.rawOf_append, List.append_assoc,
        List.head?_append, he] at hc
      exact (Option.some.inj hc).symm

theorem tokens_lexemesOf (hes : ∀ e ∈ es, Standing wanted e) {u : List Char}
    (hu : ∀ c, u.head? = some c → c = '<') :
    tokens (rawOf (lexemesOf es) ++ u) = (tokens u).prepend (lexemesOf es) := by
  induction es with
  | nil => rfl
  | cons e es ih =>
      obtain ⟨he, hes'⟩ := List.forall_mem_cons.mp hes
      have hnext := head?_lexemesOf_append hes' hu
      have hcons : lexemesOf (e :: es) = e.2 ++ lexemesOf es := rfl
      rw [hcons, Outline.rawOf_append, List.append_assoc, he.tokens_append _ hnext, ih hes',
        Scan.prepend_append]

theorem content_lexemesOf (hes : ∀ e ∈ es, Standing wanted e) : Content (lexemesOf es) := by
  induction es with
  | nil => exact .nil
  | cons e es ih =>
      obtain ⟨he, hes'⟩ := List.forall_mem_cons.mp hes
      exact he.whole.content.append (ih hes')

theorem exists_seen_lexemesOf (hes : ∀ e ∈ es, Standing wanted e) (position : Nat)
    (more : List Lexeme) :
    ∃ next, seen wanted position (lexemesOf es ++ more) =
      ((es.map fun e => (e.1, rawOf e.2)) ++ (seen wanted next more).1,
        (seen wanted next more).2) := by
  induction es generalizing position with
  | nil => exact ⟨position, rfl⟩
  | cons e es ih =>
      obtain ⟨he, hes'⟩ := List.forall_mem_cons.mp hes
      have hcons : lexemesOf (e :: es) = e.2 ++ lexemesOf es := rfl
      obtain ⟨next, hnext⟩ := he.whole.exists_seen he.localName_eq position (lexemesOf es ++ more)
      obtain ⟨next', hnext'⟩ := ih hes' next
      rw [hcons, List.append_assoc, hnext, hnext']
      exact ⟨next', rfl⟩

theorem scan_framed (hes : ∀ e ∈ es, Standing wanted e) :
    scan (framed (rawOf (lexemesOf es))) = ⟨framedLexemes (lexemesOf es), true⟩ := by
  have hend : ∀ c, "</r>".toList.head? = some c → c = '<' := fun c hc => (Option.some.inj hc).symm
  have hcontent : Content (framedLexemes (lexemesOf es)) :=
    .element (content_lexemesOf hes) .nil
  rw [scan, tokens_framed, tokens_lexemesOf hes hend, tokens_rootEnd]
  exact hcontent.nested_eq true

/-- In a root, each of the elements is found, and nothing besides. -/
theorem keys_elements_framed (hwanted : wanted ≠ ['r']) (hes : ∀ e ∈ es, Standing wanted e) :
    let found := (Document.mk false (framed (rawOf (lexemesOf es)))).elements wanted
    (found.1.map fun e => (e.name, e.raw)) = (es.map fun e => (e.1, rawOf e.2)) ∧
      found.2 = true := by
  have hroot : sight wanted 0 (openLexeme ['r'] []) (lexemesOf es ++ [closeLexeme ['r']]) =
      .nothing := by
    have hname : NameFits ['r'] := by decide
    exact Outline.sight_openLexeme_of_ne hname hwanted.symm
  obtain ⟨next, hnext⟩ := exists_seen_lexemesOf hes
    (0 + Text.Utf8.size (openLexeme ['r'] []).raw) [closeLexeme ['r']]
  have hseen : seen wanted 0 (framedLexemes (lexemesOf es)) =
      (es.map fun e => (e.1, rawOf e.2), true) := by
    have hclose : seen wanted next [closeLexeme ['r']] = ([], true) := by
      rw [seen_nothing rfl, seen, elementsFrom]
      rfl
    rw [framedLexemes, seen_nothing hroot, hnext, hclose, List.append_nil]
  obtain ⟨hkeys, hclosed⟩ := Prod.mk.inj hseen
  simp only [Document.elements, scan_framed hes, hclosed, Bool.and_true]
  exact ⟨hkeys, trivial⟩

end

end Xml

/-! ## What elements bring -/

namespace Markup

variable {name : String} {grant : Nat → Xml.Node → Option Outcome}

/-- A way to read records in which their number only shows in the faults. -/
def Unnumbered (grant : Nat → Xml.Node → Option Outcome) : Prop :=
  ∀ index node, (grant index node).map Outcome.share = (grant 1 node).map Outcome.share

/-- What an element of some name and characters brings that is cut out as it is. -/
def shareOf (name : String) (grant : Nat → Xml.Node → Option Outcome)
    (key : List Char × List Char) : Reading :=
  (outcome name grant (Xml.Element.mk key.1 0 key.2).source 1).share

theorem records_shareOf (key : List Char × List Char) :
    (shareOf name grant key).report.records = 1 :=
  Outcome.records_share _

/-- The number of an element does not count for what it brings. -/
theorem share_outcome (hgrant : Unnumbered grant) (source : List Char) (index : Nat) :
    (outcome name grant source index).share = (outcome name grant source 1).share := by
  rw [outcome, outcome]
  cases Xml.Node.ofFragment? source with
  | none => rfl
  | some node =>
      have h := hgrant index node
      rw [Option.bind_some, Option.bind_some]
      cases hindex : grant index node with
      | none =>
          rw [hindex] at h
          rw [Option.map_eq_none_iff.mp h.symm]
          rfl
      | some o =>
          rw [hindex] at h
          obtain ⟨o', ho', hshare⟩ := Option.map_eq_some_iff.mp h.symm
          rw [ho']
          exact hshare.symm

theorem shares_outcomes (hgrant : Unnumbered grant) (es : List Xml.Element) (first : Nat) :
    shares (outcomes name grant first (es.map Xml.Element.source)) =
      .total ((es.map fun e => (e.name, e.raw)).map (shareOf name grant)) := by
  rw [shares]
  refine congrArg Reading.total ?_
  induction es generalizing first with
  | nil => rfl
  | cons e es ih =>
      rw [List.map_cons, outcomes_cons, List.map_cons, ih, share_outcome hgrant]
      rfl

end Markup

namespace Format

open Text.Utf8 (encode decodeLenient)
open Xml.Outline (openLexeme closeLexeme emptyLexeme)

/-- Fragments between the tags of a root. -/
def framed (fragments : List (List UInt8)) : List UInt8 :=
  encode "<r>".toList ++ (fragments.flatten ++ encode "</r>".toList)

theorem decodeLenient_flatten_append {fragments : List (List UInt8)}
    (h : ∀ e ∈ fragments, (decodeLenient e).head? = some '<') (rest : List UInt8) :
    decodeLenient (fragments.flatten ++ 60 :: rest) =
      (fragments.map decodeLenient).flatten ++ decodeLenient (60 :: rest) := by
  have hbracket : (60 : UInt8).toNat ≤ 0x7F := by decide
  induction fragments with
  | nil => rfl
  | cons e es ih =>
      obtain ⟨-, hes⟩ := List.forall_mem_cons.mp h
      -- The next fragment starts with a bracket, and so does what comes after the last one.
      obtain ⟨more, hmore⟩ : ∃ more, es.flatten ++ 60 :: rest = 60 :: more := by
        cases es with
        | nil => exact ⟨rest, rfl⟩
        | cons e' es =>
            obtain ⟨more, hmore⟩ := Text.Utf8.encode_prefix_of_head? (by decide)
              (hes e' List.mem_cons_self)
            refine ⟨more ++ (es.flatten ++ 60 :: rest), ?_⟩
            rw [List.flatten_cons, ← hmore, List.append_assoc, List.append_assoc]
            rfl
      rw [List.flatten_cons, List.append_assoc, hmore, Text.Utf8.decodeLenient_append hbracket,
        ← hmore, ih hes, List.map_cons, List.flatten_cons, List.append_assoc]

theorem ofBytes_framed {fragments : List (List UInt8)}
    (h : ∀ e ∈ fragments, (decodeLenient e).head? = some '<') :
    Xml.Document.ofBytes (framed fragments) =
      ⟨false, Xml.framed (fragments.map decodeLenient).flatten⟩ := by
  have hend : encode "</r>".toList = 60 :: encode "/r>".toList := rfl
  have hunmarked : ¬ byteOrderMark <+: framed fragments := by
    rintro ⟨rest, hrest⟩
    cases (List.cons.inj hrest).1
  have htext := decodeLenient_flatten_append h (encode "/r>".toList)
  rw [← hend, Text.Utf8.decodeLenient_encode] at htext
  rw [Xml.Document.ofBytes_unmarked hunmarked, framed, Text.Utf8.decodeLenient_encode_append, htext]
  rfl

/-- What a holding or an item brings does not depend on its number. -/
theorem exists_unnumbered_of_element? {f : Format} {name : String} (h : f.element? = some name) :
    name.toList ≠ ['r'] ∧
      ∃ grant, Markup.Unnumbered grant ∧ f.survey = Markup.survey name grant := by
  cases f with
  | kbart => cases h
  | ezb =>
      cases h
      refine ⟨by decide, Ezb.holding?, fun index node => ?_, rfl⟩
      simp only [Ezb.holding?, Option.bind_eq_bind, Option.map_bind, Function.comp_def,
        Option.map_some, Outcome.share_ofRecord index 1]
  | google =>
      cases h
      refine ⟨by decide, Google.item?, fun index node => ?_, rfl⟩
      simp only [Google.item?, Option.bind_eq_bind, Option.map_bind, Function.comp_def,
        Option.map_some, Outcome.share_ofRecord index 1]

theorem parse_framed_standing {f : Format} {name : String}
    {grant : Nat → Xml.Node → Option Outcome} (hsurvey : f.survey = Markup.survey name grant)
    (hgrant : Markup.Unnumbered grant) (hname : name.toList ≠ ['r'])
    {fragments : List (List UInt8)} {x : List UInt8 → List Char × List Xml.Lexeme}
    (hx : ∀ e ∈ fragments, Xml.rawOf (x e).2 = decodeLenient e ∧
      Xml.Standing name.toList (x e)) :
    f.parse .lenient (framed fragments) =
      .ok (.total (fragments.map fun e =>
        Markup.shareOf name grant ((x e).1, Xml.rawOf (x e).2))) := by
  have hes : ∀ e ∈ fragments.map x, Xml.Standing name.toList e :=
    List.forall_mem_map.mpr fun e he => (hx e he).2
  have hhead : ∀ e ∈ fragments, (decodeLenient e).head? = some '<' :=
    fun e he => (hx e he).1 ▸ (hx e he).2.head?_raw
  have htext : (fragments.map decodeLenient).flatten =
      Xml.rawOf (Xml.lexemesOf (fragments.map x)) := by
    rw [Xml.rawOf, Xml.lexemesOf, List.flatMap_assoc, List.flatMap_map, List.flatMap_def]
    exact congrArg _ (List.map_congr_left fun e he => (hx e he).1.symm)
  have hdocument := ofBytes_framed hhead
  rw [htext] at hdocument
  obtain ⟨hkeys, hclosed⟩ := Xml.keys_elements_framed hname hes
  rw [parse, Survey.read_lenient_eq, hsurvey, Markup.survey_of_document hdocument]
  dsimp only
  rw [hclosed, Markup.shares_outcomes hgrant, hkeys, List.map_map, List.map_map]
  rfl

/-- Elements are read independently of each other. A document of complete elements between the tags
of a root can be read to its end. What it brings is the total of what each of them brings by itself
in such a root: the licences of a later one come after those of an earlier one under every
identifier, new identifiers come last, and everything that is counted adds up. Each element counts
as one record, whatever elements of its name are inside of it, and whether it can be read or not. -/
theorem parse_framed {f : Format} {name : String} (hf : f.element? = some name)
    {fragments : List (List UInt8)}
    (h : ∀ e ∈ fragments, Xml.IsElement name.toList (decodeLenient e)) :
    ∃ rs : List Reading,
      (fragments.map fun e => f.parse .lenient (framed [e])) = rs.map .ok ∧
      (∀ r ∈ rs, r.report.records = 1) ∧
      f.parse .lenient (framed fragments) = .ok (.total rs) := by
  obtain ⟨hname, grant, hgrant, hsurvey⟩ := exists_unnumbered_of_element? hf
  have hstanding : ∀ e ∈ fragments, ∃ x : List Char × List Xml.Lexeme,
      Xml.rawOf x.2 = decodeLenient e ∧ Xml.Standing name.toList x :=
    fun e he => (h e he).exists_standing
  choose! x hx using hstanding
  refine ⟨fragments.map fun e => Markup.shareOf name grant ((x e).1, Xml.rawOf (x e).2), ?_, ?_,
    parse_framed_standing hsurvey hgrant hname hx⟩
  · rw [List.map_map]
    refine List.map_congr_left fun e he => ?_
    have hone : ∀ e' ∈ [e], Xml.rawOf (x e').2 = decodeLenient e' ∧
        Xml.Standing name.toList (x e') := fun e' he' => List.mem_singleton.mp he' ▸ hx e he
    rw [parse_framed_standing hsurvey hgrant hname hone]
    exact congrArg Except.ok (Reading.empty_plus _)
  · intro r hr
    obtain ⟨e, -, rfl⟩ := List.mem_map.mp hr
    exact Markup.records_shareOf _

/-- What is in an item: a serial number, and another item behind a comment that looks like one. -/
def insideItem : List Xml.Lexeme :=
  openLexeme "issn".toList [] :: ([⟨.text "1234-5678".toList, "1234-5678".toList⟩] ++
    closeLexeme "issn".toList :: [⟨.comment, "<!--<item>-->".toList⟩,
      emptyLexeme "item".toList [], emptyLexeme "coverage".toList []])

/-- An item with another one in it. -/
def itemInItem : List UInt8 :=
  encode "<item><issn>1234-5678</issn><!--<item>--><item/><coverage/></item>".toList

theorem isElement_itemInItem : Xml.IsElement "item".toList (decodeLenient itemInItem) := by
  have hinside : Xml.Content insideItem :=
    .element (.plain rfl .nil) (.plain rfl (.plain rfl (.plain rfl .nil)))
  exact ⟨"item".toList, openLexeme "item".toList [] :: (insideItem ++ [closeLexeme "item".toList]),
    rfl, .tags hinside, by cbv, by cbv⟩

/-- A serial number with a reference that has no meaning. -/
def senseless : List Xml.Lexeme :=
  openLexeme "issn".toList [] :: ([⟨.text "&none;".toList, "&none;".toList⟩] ++
    closeLexeme "issn".toList :: [])

/-- An item with a qualifier that cannot be read. -/
def senselessItem : List UInt8 := encode "<g:item><issn>&none;</issn></g:item>".toList

theorem isElement_senselessItem : Xml.IsElement "item".toList (decodeLenient senselessItem) := by
  have hinside : Xml.Content senseless := .element (.plain rfl .nil) .nil
  exact ⟨"g:item".toList, openLexeme "g:item".toList [] ::
    (senseless ++ [closeLexeme "g:item".toList]), rfl, .tags hinside, by cbv, by cbv⟩

/-- One record each, the second of which cannot be read. -/
theorem parse_framed_items :
    Format.google.element? = some "item" ∧
      (∀ e ∈ [itemInItem, senselessItem], Xml.IsElement "item".toList (decodeLenient e)) ∧
      ∃ rs : List Reading,
        ([itemInItem, senselessItem].map fun e => Format.google.parse .lenient (framed [e])) =
          rs.map .ok ∧
        (∀ r ∈ rs, r.report.records = 1) ∧
        Format.google.parse .lenient (framed [itemInItem, senselessItem]) = .ok (.total rs) := by
  have hf : Format.google.element? = some "item" := rfl
  have h : ∀ e ∈ [itemInItem, senselessItem], Xml.IsElement "item".toList (decodeLenient e) := by
    rw [List.forall_mem_cons, List.forall_mem_singleton]
    exact ⟨isElement_itemInItem, isElement_senselessItem⟩
  exact ⟨hf, h, parse_framed hf h⟩

end Format

end Holdings
