import Holdings.Proofs.Embedded
import Holdings.Proofs.CutOut
/-!
# Prefixes for all names of a document

The names of all elements may get one prefix, which the root declares, and every format of markup is
read as before (`Format.parse_prefixed`). The elements are cut out at the same parts, and each
fragment loses its prefixes before it is read. It loses its declarations too, those that it had
before among them, but attributes only have to have distinct names, and no tag declares a name space
twice. Behind a byte order mark, where the fragments come three bytes early, this is so as long as
all of them can be cut out (`Part.node_prefixed`).
-/

namespace Holdings.Xml

namespace Part

variable {ps ps' : List Part} {f : List Char → List Char} {p : List Char}

theorem exists_scan_writeAll (hf : Function.Injective f) (hps : ∀ q ∈ ps, q.Cut) (h : Apart ps)
    (hps' : ∀ q ∈ ps', q.Cut) (h' : Apart ps')
    (halike : List.Forall₂ (fun q q' : Part => q.lexeme.Alike f q'.lexeme) ps ps') :
    ∃ n intact, scan (writeAll ps) = ⟨(ps.take n).map lexeme, intact⟩ ∧
      scan (writeAll ps') = ⟨(ps'.take n).map lexeme, intact⟩ := by
  have hlexemes : List.Forall₂ (Lexeme.Alike f) (ps.map lexeme) (ps'.map lexeme) :=
    List.forall₂_map_left_iff.mpr (List.forall₂_map_right_iff.mpr halike)
  obtain ⟨n, intact, hn, hn'⟩ := exists_nested_take hf hlexemes true []
  refine ⟨n, intact, ?_, ?_⟩
  · rw [scan, tokens_writeAll hps h, List.map_take]
    exact hn
  · rw [scan, tokens_writeAll hps' h', List.map_take]
    exact hn'

/-- A fragment with prefixes is read as the one without, up to the normal form of attributes. -/
theorem ofFragment?_unqualified {t : Tag} (h : List.Forall₂ Restates (.tag t :: ps) ps')
    (hps : Apart (.tag t :: ps)) (hp : Qualifier p) :
    (Node.ofFragment? (unqualified (writeAll (ps'.map (rename (qualify p)))))).map Node.normal =
      (Node.ofFragment? (writeAll (.tag t :: ps))).map Node.normal := by
  obtain ⟨hfits, hfits'⟩ := fits_of_restates h
  have hplain : ∀ q ∈ ps', q.Plain := fun q hq => (hfits' q hq).plain
  have hapart := apart_of_restates h hps
  have halike := forall₂_alike_undeclared h
  obtain ⟨n, intact, hn, hn'⟩ := exists_scan_writeAll Function.injective_id
    (fun q hq => (hfits q hq).plain.cut) hps (cut_undeclared hplain)
    (apart_map isTag_undeclared hapart) halike
  have hhead : (writeAll (.tag t :: ps)).head? ≠ some mark := by
    rw [show (writeAll (.tag t :: ps)).head? = some '<' from rfl]
    decide
  have hhead' : (writeAll (ps'.map undeclared)).head? ≠ some mark := by
    rw [head?_writeAll_tag isTag_undeclared h]
    decide
  rw [unqualified_writeAll hp hplain hapart]
  refine ofFragment?_normal ?_
  rw [Document.ofChars_of_head hhead, Document.ofChars_of_head hhead', hn, hn']
  exact List.forall₂_map_left_iff.mpr (List.forall₂_map_right_iff.mpr (List.forall₂_take n halike))

/-- An element with a prefix is read as the one without, and so it is behind a mark, where both are
cut out early, if they are. -/
theorem node_prefixed {wanted : List Char} (hwanted : Croppable wanted) (hp : Qualifier p) {k : Nat}
    (hread : (scan (writeAll ps)).lexemes = (ps.take k).map lexeme) {e e' : Element}
    (he : Corresponds (qualify p) wanted 0 0 ((ps.take k).map lexeme)
      (((ps'.map (rename (qualify p))).take k).map lexeme) e e')
    (h : List.Forall₂ Restates ps ps') (hapart : Apart ps) (marked : Bool) :
    ((Document.source? ⟨marked, writeAll (ps'.map (rename (qualify p)))⟩ e').bind
      Node.ofFragment?).map Node.normal =
    ((Document.source? ⟨marked, writeAll ps⟩ e).bind Node.ofFragment?).map Node.normal := by
  obtain ⟨before, before', t, span, span', hcut, hcut', hbefore, hwhole, hspan, ht, hname⟩ :=
    exists_cutAt hread he h hapart
  have hfits : Tag.Fits t := (fits_of_restates hwhole).1 _ List.mem_cons_self
  have hplain : isQualified e.name = false := by
    rw [hname, ← ht, isQualified, localName_of_fits hfits.name]
    simp
  have hqualified : isQualified e'.name = true := by
    rw [he.name_eq, isQualified_qualify hp]
  have hchain : Apart (.tag t :: span) := by
    obtain ⟨after, rfl⟩ := hcut.exists_after
    exact hapart.right_of_append.left_of_append
  rw [Document.source?, Document.source?, hplain, hqualified]
  cases marked with
  | false =>
      have hnodes := ofFragment?_unqualified hwhole hchain hp
      rwa [← hcut.raw_eq, ← hcut'.raw_eq] at hnodes
  | true =>
      obtain ⟨x, x', hx, hx', hcropped⟩ := exists_cropped hspan hwhole hchain (ht.symm ▸ hwanted) hp
      have hnodes := ofFragment?_before hbefore hp hx'.head hcropped
      rw [← hcut.raw_eq] at hx
      rw [← hcut'.raw_eq] at hx'
      rw [hcut.fragment?_marked hx, hcut'.fragment?_marked hx', Option.map_map, Option.map_map,
        Option.bind_map, Option.bind_map]
      exact hnodes

/-- A mark in front of a document is there with prefixes too. -/
theorem exists_document (h : List.Forall₂ Restates ps ps') (hapart : Apart ps) :
    ∃ marked qs qs', Document.ofChars (writeAll ps) = ⟨marked, writeAll qs⟩ ∧
      Document.ofChars (writeAll (ps'.map (rename f))) = ⟨marked, writeAll (qs'.map (rename f))⟩ ∧
      List.Forall₂ Restates qs qs' ∧ Apart qs := by
  have hmarked : ∀ s, Document.ofChars (mark :: s) = ⟨true, s⟩ := by
    intro s
    rw [Document.ofChars, if_pos rfl]
  cases h with
  | nil => exact ⟨false, [], [], rfl, rfl, .nil, hapart⟩
  | @cons q _ ps ps' hq hps =>
      have hall := List.Forall₂.cons hq hps
      obtain ⟨hfits, -, ⟨g, rfl⟩, -⟩ := hq
      cases q with
      | tag t =>
          refine ⟨false, _, _, Document.ofChars_of_head ?_, Document.ofChars_of_head ?_, hall, hapart⟩
          all_goals exact fun hc => absurd (Option.some.inj hc) (by decide)
      | text s =>
          obtain ⟨hne, hbracket, hundeclaring⟩ := hfits
          obtain ⟨c, s, rfl⟩ := List.exists_cons_of_ne_nil hne
          by_cases hc : c = mark
          · subst hc
            cases s with
            | nil => exact ⟨true, ps, ps', hmarked _, hmarked _, hps, hapart.tail⟩
            | cons d s =>
                have hrest : (Part.text (d :: s)).Fits := by
                  refine ⟨List.cons_ne_nil _ _, fun hd => hbracket (List.mem_cons_of_mem _ hd), ?_⟩
                  exact fun b hb hinside =>
                    hundeclaring b hb (hinside.trans (List.suffix_cons _ _).isInfix)
                have hchain : Apart (.text (d :: s) :: ps) := by
                  rw [apart_iff] at hapart ⊢
                  exact hapart
                exact ⟨true, .text (d :: s) :: ps, .text (d :: s) :: ps', hmarked _, hmarked _,
                  .cons hrest.restates hps, hchain⟩
          · have hhead : ∀ rest, (c :: rest).head? ≠ some mark :=
              fun rest he => hc (Option.some.inj he)
            exact ⟨false, _, _, Document.ofChars_of_head (hhead _),
              Document.ofChars_of_head (hhead _), hall, hapart⟩

end Part

end Holdings.Xml

namespace Holdings.Markup

open Xml (Part Qualifier qualify)

variable {name : String} {grant : Nat → Xml.Node → Option Outcome} {ps ps' : List Part}
  {p : List Char}

/-- What is made of nodes that are the same up to the normal form of attributes. -/
theorem bind_grant_congr (hgrant : ∀ index (n : Xml.Node), grant index n.normal = grant index n)
    {n n' : Option Xml.Node} (h : n'.map Xml.Node.normal = n.map Xml.Node.normal) (index : Nat) :
    n'.bind (grant index) = n.bind (grant index) := by
  have hnormal : ∀ n : Option Xml.Node,
      (n.map Xml.Node.normal).bind (grant index) = n.bind (grant index) := by
    intro n
    cases n with
    | none => rfl
    | some n => exact hgrant index n
  rw [← hnormal n', h, hnormal]

/-- Texts in which the same nodes are read, up to the normal form of attributes. -/
def ReadAlike (s s' : List Char) : Prop :=
  (Xml.Node.ofFragment? s').map Xml.Node.normal = (Xml.Node.ofFragment? s).map Xml.Node.normal

theorem outcomes_congr (hgrant : ∀ index (n : Xml.Node), grant index n.normal = grant index n)
    {ss ss' : List (List Char)} (h : List.Forall₂ ReadAlike ss ss') (first : Nat) :
    outcomes name grant first ss' = outcomes name grant first ss := by
  induction h generalizing first with
  | nil => rfl
  | cons hs _ ih =>
      rw [outcomes_cons, outcomes_cons, ih, outcome, outcome, bind_grant_congr hgrant hs]

/-- The texts of elements that are cut out of two documents. -/
theorem forall₂_readAlike {d d' : Xml.Document} {es es' : List Xml.Element}
    (h : List.Forall₂ (fun e e' => ((d'.source? e').bind Xml.Node.ofFragment?).map Xml.Node.normal =
      ((d.source? e).bind Xml.Node.ofFragment?).map Xml.Node.normal) es es')
    (hwhole : (d.sources es).2 = true) (hwhole' : (d'.sources es').2 = true) :
    List.Forall₂ ReadAlike (d.sources es).1 (d'.sources es').1 := by
  have hsources := Xml.Document.forall₂_sources hwhole
  have hsources' := Xml.Document.forall₂_sources hwhole'
  generalize (d.sources es).1 = ss at hsources
  generalize (d'.sources es').1 = ss' at hsources'
  clear hwhole hwhole'
  induction h generalizing ss ss' with
  | nil =>
      cases hsources
      cases hsources'
      exact .nil
  | cons he _ ih =>
      cases hsources with
      | cons hs hrest =>
          cases hsources' with
          | cons hs' hrest' =>
              rw [hs, hs'] at he
              exact .cons he (ih _ hrest _ hrest')

/-- The elements of a document with prefixes have the outcomes that they had without, if all of them
can be cut out of both. -/
theorem survey_prefixed (hgrant : ∀ index (n : Xml.Node), grant index n.normal = grant index n)
    (hname : Xml.Croppable name.toList) (hps : Part.Written ps)
    (h : List.Forall₂ Part.Restates ps ps') (hp : Qualifier p)
    (hwhole : (survey name grant (Text.Utf8.encode (Part.writeAll ps))).ending ≠ .torn)
    (hwhole' : (survey name grant
      (Text.Utf8.encode (Part.writeAll (ps'.map (Part.rename (qualify p)))))).ending ≠ .torn) :
    survey name grant (Text.Utf8.encode (Part.writeAll (ps'.map (Part.rename (qualify p))))) =
      survey name grant (Text.Utf8.encode (Part.writeAll ps)) := by
  obtain ⟨marked, qs, qs', hdocument, hdocument', hqs, hapart⟩ :=
    Part.exists_document (f := qualify p) h hps.apart
  obtain ⟨hfits, hfits'⟩ := Part.fits_of_restates hqs
  have hqualified := Part.plain_qualified hp fun q hq => (hfits' q hq).plain
  have halike : List.Forall₂ (fun q q' : Part => q.lexeme.Alike (qualify p) q'.lexeme) qs
      (qs'.map (Part.rename (qualify p))) :=
    List.forall₂_map_right_iff.mpr (hqs.imp fun q q' hq => hq.alike_qualified hp)
  obtain ⟨n, intact, hn, hn'⟩ := Part.exists_scan_writeAll (Xml.qualify_injective p)
    (fun q hq => (hfits q hq).plain.cut) hapart (fun q hq => (hqualified q hq).cut)
    (Part.apart_map (Part.isTag_rename _) (Part.apart_of_restates hqs hapart)) halike
  obtain ⟨hes, hclosed⟩ := Xml.forall₂_corresponds name.toList 0 0
    (List.forall₂_map_left_iff.mpr (List.forall₂_map_right_iff.mpr (List.forall₂_take n halike)))
  have hnodes := hes.imp fun e e' he =>
    Part.node_prefixed hname hp (congrArg Xml.Scan.lexemes hn) he hqs hapart marked
  simp only [survey, Xml.Document.ofBytes, Text.Utf8.decodeLenient_encode, hdocument, hdocument',
    Xml.Document.elements, hn, hn', hclosed, ne_eq, ending_eq_torn_iff, Bool.not_eq_false]
    at hwhole hwhole' ⊢
  rw [hwhole, hwhole', outcomes_congr hgrant (forall₂_readAlike hnodes hwhole hwhole')]

/-- Without a byte order mark in front a document is not torn, nor is the one with prefixes. -/
theorem ending_prefixed_ne_torn (hps : Part.Written ps) (h : List.Forall₂ Part.Restates ps ps')
    (hmark : ¬ Format.byteOrderMark <+: Text.Utf8.encode (Part.writeAll ps)) :
    (survey name grant (Text.Utf8.encode (Part.writeAll ps))).ending ≠ .torn ∧
      (survey name grant
        (Text.Utf8.encode (Part.writeAll (ps'.map (Part.rename (qualify p)))))).ending ≠ .torn := by
  have hdocument := Xml.Document.ofBytes_unmarked hmark
  refine ⟨ending_ne_torn hdocument, ?_⟩
  obtain ⟨marked, qs, qs', hqs, hqs', -, -⟩ := Part.exists_document (f := qualify p) h hps.apart
  rw [Xml.Document.ofBytes, Text.Utf8.decodeLenient_encode, hqs] at hdocument
  obtain ⟨rfl, -⟩ := Xml.Document.mk.inj hdocument
  have hprefixed : Xml.Document.ofBytes
      (Text.Utf8.encode (Part.writeAll (ps'.map (Part.rename (qualify p))))) =
        ⟨false, Part.writeAll (qs'.map (Part.rename (qualify p)))⟩ := by
    rw [Xml.Document.ofBytes, Text.Utf8.decodeLenient_encode, hqs']
  exact ending_ne_torn hprefixed

end Holdings.Markup

namespace Holdings.Format

open Xml (Attribute Part Qualifier undeclaring_of_not_infix)
open Text.Utf8 (encode)

theorem croppable_holding : Xml.Croppable "holding".toList where
  length := by decide
  ascii := by simp

theorem croppable_item : Xml.Croppable "item".toList where
  length := by decide
  ascii := by simp

theorem exists_croppable_of_ne_kbart {f : Format} (h : f ≠ .kbart) :
    ∃ name grant, f.survey = Markup.survey name grant ∧ Xml.Croppable name.toList ∧
      ∀ index (n : Xml.Node), grant index n.normal = grant index n := by
  cases f with
  | kbart => exact absurd rfl h
  | ezb => exact ⟨_, _, rfl, croppable_holding, Ezb.holding?_normal⟩
  | google => exact ⟨_, _, rfl, croppable_item, Google.item?_normal⟩

/-- Prefixes do not count. All names of a document may get one prefix that its root declares, and
then it is read as before under every policy: to the same entries and the same report, or the same
fault. The declaration stands anywhere among the attributes of the root, which does not have it
already. That tags fit is not needed, as both documents can be read equally far. This is so of every
document without a byte order mark in front. Behind a mark, where elements are cut out in other
places, one of the two documents may be torn, but if neither is then they are read alike too. -/
theorem parse_prefixed {f : Format} (hf : f ≠ .kbart) (policy : SkipPolicy) {ps : List Part}
    (hps : Part.Written ps) {p : List Char} (hp : Qualifier p) {d : Attribute} (hd : d.Declares p)
    (hnew : ∀ a ∈ Part.rootAttributes ps, d.name ≠ a.name) (i : Nat) :
    let before := encode (Part.writeAll ps)
    let after := encode (Part.writeAll (Part.prefixed p i d ps))
    (¬ byteOrderMark <+: before → f.parse policy after = f.parse policy before) ∧
    ((f.survey before).ending ≠ .torn → (f.survey after).ending ≠ .torn →
      f.parse policy after = f.parse policy before) := by
  dsimp only
  obtain ⟨name, grant, hsurvey, hname, hgrant⟩ := exists_croppable_of_ne_kbart hf
  have hrestates := Part.forall₂_restates_insertRoot hps.fits hd hnew i
  have hread : (f.survey (encode (Part.writeAll ps))).ending ≠ .torn →
      (f.survey (encode (Part.writeAll (Part.prefixed p i d ps)))).ending ≠ .torn →
      f.parse policy (encode (Part.writeAll (Part.prefixed p i d ps))) =
        f.parse policy (encode (Part.writeAll ps)) := by
    rw [parse, parse, hsurvey]
    intro hwhole hwhole'
    rw [Part.prefixed, Markup.survey_prefixed hgrant hname hps hrestates hp hwhole hwhole']
  refine ⟨fun hmark => ?_, hread⟩
  obtain ⟨hwhole, hwhole'⟩ := Markup.ending_prefixed_ne_torn (p := p) hps hrestates hmark
  exact hread (hsurvey ▸ hwhole) (hsurvey ▸ hwhole')

/-- A prefix with characters of several kinds. -/
def itemPrefix : List Char := ['n', '-', '1']

/-- The declaration of the prefix. -/
def itemDeclaration : Attribute :=
  ⟨[' '], ['x', 'm', 'l', 'n', 's', ':', 'n', '-', '1'], [], [], '"', ['u']⟩

/-- A document with an empty item in it. -/
def itemParts : List Part :=
  [.tag ⟨.opening [], ['r'], []⟩,
    .tag ⟨.empty [⟨[' '], ['i', 'd'], [], [' '], '\'', ['>']⟩], ['i', 't', 'e', 'm'], [' ']⟩,
    .text ['\n'],
    .tag ⟨.closing, ['r'], []⟩]

example : Part.writeAll (Part.prefixed itemPrefix 0 itemDeclaration itemParts) =
    "<n-1:r xmlns:n-1=\"u\"><n-1:item id= '>' />\n</n-1:r>".toList := by
  rfl

theorem qualifier_itemPrefix : Qualifier itemPrefix where
  ne := by decide
  chars := by
    have hletter : Text.isWord 'n' = true := Text.isWord_of_ascii (by decide)
    have hdigit : Text.isWord '1' = true := Text.isWord_of_ascii (by decide)
    simp [itemPrefix, Xml.isQualifierChar, hletter, hdigit]

theorem declares_itemDeclaration : itemDeclaration.Declares itemPrefix where
  fits :=
    ⟨by decide, List.all_eq_true.mp rfl, by decide, List.all_eq_true.mp rfl, List.forall_mem_nil _,
      List.forall_mem_nil _, .inl rfl, by decide, by decide, undeclaring_of_not_infix (by decide)⟩
  name := rfl

theorem written_itemParts : Part.Written itemParts where
  fits := by
    have hid : Attribute.Fits ⟨[' '], ['i', 'd'], [], [' '], '\'', ['>']⟩ :=
      ⟨by decide, List.all_eq_true.mp rfl, by decide, List.all_eq_true.mp rfl,
        List.forall_mem_nil _, List.all_eq_true.mp rfl, .inr rfl, by decide, by decide,
        undeclaring_of_not_infix (by decide)⟩
    rw [itemParts, List.forall_mem_cons, List.forall_mem_cons, List.forall_mem_cons,
      List.forall_mem_singleton]
    exact ⟨⟨by decide, by simp [Text.isBlank], List.forall_mem_nil _, .nil, List.forall_mem_nil _⟩,
      ⟨by decide, by simp [Text.isBlank], List.forall_mem_singleton.mpr hid,
        List.pairwise_singleton _ _, List.all_eq_true.mp rfl⟩,
      ⟨by decide, by decide, undeclaring_of_not_infix (by decide)⟩,
      by decide, by simp [Text.isBlank], List.forall_mem_nil _, .nil, List.forall_mem_nil _⟩
  apart := by simp [Part.Apart, itemParts, Part.isTag]

theorem parse_prefixed_itemParts :
    Format.google ≠ .kbart ∧ Part.Written itemParts ∧ Qualifier itemPrefix ∧
      itemDeclaration.Declares itemPrefix ∧
      (∀ a ∈ Part.rootAttributes itemParts, itemDeclaration.name ≠ a.name) ∧
      ¬ byteOrderMark <+: encode (Part.writeAll itemParts) ∧
      Format.google.parse .strict
          (encode (Part.writeAll (Part.prefixed itemPrefix 0 itemDeclaration itemParts))) =
        Format.google.parse .strict (encode (Part.writeAll itemParts)) := by
  have hnew : ∀ a ∈ Part.rootAttributes itemParts, itemDeclaration.name ≠ a.name :=
    List.forall_mem_nil _
  have hmark : ¬ byteOrderMark <+: encode (Part.writeAll itemParts) := by decide
  exact ⟨by decide, written_itemParts, qualifier_itemPrefix, declares_itemDeclaration, hnew, hmark,
    (parse_prefixed (by decide) .strict written_itemParts qualifier_itemPrefix
      declares_itemDeclaration hnew 0).1 hmark⟩

end Holdings.Format
