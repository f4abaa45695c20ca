import Holdings.Format.Markup
import Holdings.Proofs.Elements
import Holdings.Proofs.Torn
/-!
# Documents that were written

An element that was written is read as the tree that it was written from
(`Outline.ofFragment?_element`): blanks between elements are no texts, and those at the ends of a
text do not count. So what a reader of single elements makes of a document is what it makes of
these trees, however the elements are laid out (`Markup.survey_written`).
-/

namespace Holdings.Xml

namespace Outline

/-! ## Trees -/

/-- The node of a text, if it is not blank. -/
def textNodes (s : List Char) : List Node :=
  if skipBlanks s = [] then [] else [.text (resolve? (trimBlanks s))]

mutual
/-- The tree of an element. -/
def node : Outline → Node
  | .leaf name attributes text _ => .element name attributes (textNodes text)
  | .branch name attributes _ children _ => .element name attributes (nodes children)
  | .empty name attributes _ => .element name attributes []
/-- The trees of elements. -/
def nodes : List Outline → List Node
  | [] => []
  | o :: os => o.node :: nodes os
end

theorem nodes_eq (os : List Outline) : nodes os = os.map node := by
  induction os with
  | nil => rfl
  | cons o os ih => rw [nodes, ih, List.map_cons]

/-! ## Events -/

/-- The pieces of a text. -/
def pieces (s : List Char) : List Piece := if s = [] then [] else [⟨false, s⟩]

/-- The event of a text, if it is not blank. -/
def textEvents (s : List Char) : List Event :=
  if skipBlanks s = [] then [] else [.text (resolve? (trimBlanks s))]

theorem textOf_pieces (s : List Char) : textOf (pieces s) = textEvents s := by
  rw [pieces, textEvents]
  split
  · next h => rw [h]; rfl
  · rw [textOf, List.reverse_singleton, trimFirst, if_neg (by simp)]
    cases h : skipBlanks s with
    | nil => rfl
    | cons c t =>
        have hresolve : resolveAll? [⟨false, (skipBlanks (c :: t).reverse).reverse⟩] =
            resolve? (trimBlanks s) := by
          rw [trimBlanks, h, resolveAll?, Piece.resolve?, if_neg (by simp), resolveAll?]
          cases resolve? (skipBlanks (c :: t).reverse).reverse <;> simp
        rw [if_neg (List.cons_ne_nil _ _), ← hresolve]
        rfl

theorem eventsFrom_textLexemes (s : List Char) (ls : List Lexeme) :
    eventsFrom [] (textLexemes s ++ ls) = eventsFrom (pieces s) ls := by
  rw [textLexemes, pieces]
  split <;> rfl

theorem skipBlanks_eq_nil {s : List Char} (h : ∀ c ∈ s, Text.isSpacing c = true) :
    skipBlanks s = [] :=
  List.dropWhile_eq_nil_iff.mpr h

theorem textOf_pieces_of_spacing {s : List Char} (h : ∀ c ∈ s, Text.isSpacing c = true) :
    textOf (pieces s) = [] := by
  rw [textOf_pieces, textEvents, if_pos (skipBlanks_eq_nil h)]

mutual
/-- The events of an element. -/
def events : Outline → List Event
  | .leaf name attributes text _ => .opening name attributes :: (textEvents text ++ [.closing])
  | .branch name attributes _ children _ =>
    .opening name attributes :: (allEvents children ++ [.closing])
  | .empty name attributes _ => [.opening name attributes, .closing]
/-- The events of elements. -/
def allEvents : List Outline → List Event
  | [] => []
  | o :: os => o.events ++ allEvents os
end

mutual
/-- An element is read as its events; a text before it has come to its end. -/
theorem eventsFrom_lexemes : ∀ o : Outline, o.Fits → ∀ (before : List Piece) (ls : List Lexeme),
    eventsFrom before (o.lexemes ++ ls) = textOf before ++ (o.events ++ eventsFrom [] ls)
  | .leaf name attributes text tail, h, before, ls => by
      rw [lexemes_leaf_append, eventsFrom]
      dsimp only [openLexeme]
      rw [eventsFrom_textLexemes, eventsFrom]
      dsimp only [closeLexeme]
      rw [textOf_pieces]
      simp [events]
  | .branch name attributes lead children tail, h, before, ls => by
      rw [lexemes_branch_append, eventsFrom]
      dsimp only [openLexeme]
      rw [eventsFrom_textLexemes,
        eventsFrom_allLexemes children h.2.2.2.1 (textOf_pieces_of_spacing h.2.2.1)]
      simp [events]
  | .empty name attributes tail, _, before, ls => by
      show textOf before ++ .opening name attributes :: .closing :: eventsFrom [] ls = _
      rfl
/-- Elements are read as their events, whatever blanks are around them. -/
theorem eventsFrom_allLexemes : ∀ os : List Outline, AllFit os →
    ∀ {before : List Piece} {name : List Char} {ls : List Lexeme}, textOf before = [] →
    eventsFrom before (allLexemes os ++ closeLexeme name :: ls) =
      allEvents os ++ .closing :: eventsFrom [] ls
  | [], _, before, name, ls, hb => by
      show textOf before ++ .closing :: eventsFrom [] ls = _
      rw [hb]
      rfl
  | o :: os, h, before, name, ls, hb => by
      rw [allLexemes, List.append_assoc, List.append_assoc, eventsFrom_lexemes o h.1, hb,
        eventsFrom_textLexemes,
        eventsFrom_allLexemes os h.2 (textOf_pieces_of_spacing h.1.tail)]
      simp [allEvents]
end

/-! ## Reading the tree -/

theorem close?_textEvents (outer : List Frame) (f : Frame) (s : List Char) (es : List Event) :
    close? outer f (textEvents s ++ es) =
      close? outer { f with children := (textNodes s).reverse ++ f.children } es := by
  rw [textEvents, textNodes]
  split <;> rfl

mutual
/-- The events of an element add its tree to the element that it lies in. -/
theorem close?_events : ∀ (o : Outline) (outer : List Frame) (f : Frame) (es : List Event),
    close? outer f (o.events ++ es) = close? outer (f.add o.node) es
  | .leaf name attributes text tail, outer, f, es => by
      have hshape : (leaf name attributes text tail).events ++ es =
          .opening name attributes :: (textEvents text ++ .closing :: es) := by
        simp [events]
      rw [hshape, close?, close?_textEvents, close?]
      simp [Frame.close, node]
  | .branch name attributes lead children tail, outer, f, es => by
      have hshape : (branch name attributes lead children tail).events ++ es =
          .opening name attributes :: (allEvents children ++ .closing :: es) := by
        simp [events]
      rw [hshape, close?, close?_allEvents children, close?]
      simp [Frame.close, node]
  | .empty name attributes tail, outer, f, es => rfl
/-- The events of elements add their trees to the element that they lie in. -/
theorem close?_allEvents : ∀ (os : List Outline) (outer : List Frame) (f : Frame)
    (es : List Event),
    close? outer f (allEvents os ++ es) =
      close? outer { f with children := (nodes os).reverse ++ f.children } es
  | [], _, _, _ => rfl
  | o :: os, outer, f, es => by
      rw [allEvents, List.append_assoc, close?_events o, close?_allEvents os, nodes]
      simp [Frame.add]
end

/-- An element is read as the tree that it was written from. -/
theorem ofFragment?_element {o : Outline} (h : o.Fits) :
    Node.ofFragment? o.element = some o.node := by
  have hhead : o.element.head? ≠ some mark := by
    rw [head?_element]
    decide
  have hevents := eventsFrom_lexemes o h [] []
  rw [List.append_nil] at hevents
  have hnil : textOf [] ++ (o.events ++ eventsFrom [] []) = o.events := by
    show [] ++ (o.events ++ []) = o.events
    rw [List.nil_append, List.append_nil]
  have hclose : ∀ name attributes es, o.events = .opening name attributes :: (es ++ [.closing]) →
      close? [] ⟨name, attributes, []⟩ (es ++ [.closing]) = some o.node →
      Node.ofFragment? o.element = some o.node := by
    intro name attributes es hes hread
    rw [Node.ofFragment?, Document.ofChars_of_head hhead]
    dsimp only
    rw [scan_element h]
    dsimp only
    rw [hevents, hnil, hes]
    exact hread
  cases o with
  | leaf name attributes text tail =>
      refine hclose name attributes (textEvents text) rfl ?_
      rw [close?_textEvents, close?]
      simp [Frame.close, node]
  | branch name attributes lead children tail =>
      refine hclose name attributes (allEvents children) rfl ?_
      rw [close?_allEvents, close?]
      simp [Frame.close, node]
  | empty name attributes tail => exact hclose name attributes [] rfl rfl

mutual
/-- What is found in an element that can be written can be written. -/
theorem Fits.found {wanted : List Char} : ∀ {o : Outline}, o.Fits → ∀ x ∈ o.found wanted, x.Fits
  | .leaf name attributes text tail, h, x, hx => by
      rw [Outline.found] at hx
      split at hx
      · rw [List.mem_singleton.mp hx]
        exact h
      · exact absurd hx List.not_mem_nil
  | .branch name attributes lead children tail, h, x, hx => by
      rw [Outline.found] at hx
      split at hx
      · rw [List.mem_singleton.mp hx]
        exact h
      · exact AllFit.foundAll h.2.2.2.1 x hx
  | .empty name attributes tail, h, x, hx => by
      rw [Outline.found] at hx
      split at hx
      · rw [List.mem_singleton.mp hx]
        exact h
      · exact absurd hx List.not_mem_nil
theorem AllFit.foundAll {wanted : List Char} : ∀ {os : List Outline}, AllFit os →
    ∀ x ∈ foundAll wanted os, x.Fits
  | [], _, _, hx => absurd hx List.not_mem_nil
  | _ :: _, h, x, hx =>
      (List.mem_append.mp hx).elim (Fits.found h.1 x) (AllFit.foundAll h.2 x)
end

end Outline

/-! ## Whole documents -/

/-- A document as it is written: an instruction or none, some blanks, and one element. -/
structure Sheet where
  instruction : Option (List Char)
  lead : List Char
  root : Outline

namespace Sheet

/-- An instruction without its first bracket. -/
def instructionBody (i : List Char) : List Char := '?' :: (i ++ ['?', '>'])

/-- The lexeme of an instruction. -/
def instructionLexeme (i : List Char) : Lexeme := ⟨.instruction, '<' :: instructionBody i⟩

/-- The lexemes before the element. -/
def front (s : Sheet) : List Lexeme :=
  (s.instruction.map instructionLexeme).toList ++ Outline.textLexemes s.lead

/-- The characters of a document. -/
def write (s : Sheet) : List Char :=
  rawOf s.front ++ (s.root.element ++ s.root.tail)

/-- The instruction is not empty and ends with the first bracket that closes anything, and there is
nothing but blanks around the element. -/
structure Fits (s : Sheet) : Prop where
  instruction : ∀ i, s.instruction = some i → i ≠ [] ∧ '>' ∉ i
  lead : ∀ c ∈ s.lead, Text.isSpacing c = true
  root : s.root.Fits

/-- The lexemes of a document. -/
def lexemes (s : Sheet) : List Lexeme :=
  s.front ++ (s.root.lexemes ++ Outline.textLexemes s.root.tail)

theorem markup?_instructionBody {i : List Char} (hne : i ≠ []) (hi : '>' ∉ i)
    (rest : List Char) :
    markup? (instructionBody i ++ rest) = some (.instruction, (instructionBody i).length) := by
  have hshape : instructionBody i ++ rest = ('?' :: (i ++ ['?'])) ++ '>' :: rest := by
    simp [instructionBody]
  have hbody : '>' ∉ '?' :: (i ++ ['?']) := by
    intro hc
    rcases List.mem_cons.mp hc with hc | hc
    · cases hc
    · rcases List.mem_append.mp hc with hc | hc
      · exact hi hc
      · cases List.mem_singleton.mp hc
  have hbracket : upToBracket (('?' :: (i ++ ['?'])) ++ '>' :: rest) =
      ('?' :: (i ++ ['?']), (instructionBody i).length) := by
    rw [upToBracket_append hbody]
    simp [instructionBody]
  have hlength : 2 < ('?' :: (i ++ ['?'])).length := by
    have := List.length_pos_iff.mpr hne
    simp only [List.length_cons, List.length_append, List.length_nil]
    omega
  have hlast : ('?' :: (i ++ ['?'])).getLast? = some '?' := by
    rw [← List.cons_append, List.getLast?_concat]
  rw [hshape]
  show instruction? (('?' :: (i ++ ['?'])) ++ '>' :: rest) = _
  rw [instruction?, hbracket]
  exact if_pos ⟨hlength, hlast⟩

/-- The text behind the last element is the rest of a document. -/
theorem tokens_spacing {text : List Char} (h : ∀ c ∈ text, Text.isSpacing c = true) :
    tokens text = ⟨Outline.textLexemes text, true⟩ := by
  have hnone : ∀ c, ([] : List Char).head? = some c → c = '<' := by
    intro c hc
    cases hc
  have hnil : tokens [] = ⟨[], true⟩ := by rw [tokens]
  have := tokens_text (Outline.not_mem_of_spacing h) hnone
  rw [List.append_nil, hnil] at this
  simpa [Scan.prepend] using this

/-- A document is cut into the tokens it was written from. -/
theorem tokens_write {s : Sheet} (h : s.Fits) : tokens s.write = ⟨s.lexemes, true⟩ := by
  have hroot : tokens (s.root.element ++ s.root.tail) =
      ⟨s.root.lexemes ++ Outline.textLexemes s.root.tail, true⟩ := by
    rw [Outline.tokens_element s.root h.root, tokens_spacing h.root.tail]
    rfl
  have hnext : ∀ c, (s.root.element ++ s.root.tail).head? = some c → c = '<' := by
    intro c hc
    rw [List.head?_append, Outline.head?_element] at hc
    exact (Option.some.inj hc).symm
  have hlead : tokens (s.lead ++ (s.root.element ++ s.root.tail)) =
      ⟨Outline.textLexemes s.lead ++ (s.root.lexemes ++ Outline.textLexemes s.root.tail),
        true⟩ := by
    rw [tokens_text (Outline.not_mem_of_spacing h.lead) hnext, hroot]
    rfl
  rw [write, lexemes, front, Outline.rawOf_append, Outline.rawOf_textLexemes]
  cases hi : s.instruction with
  | none => exact hlead
  | some i =>
      obtain ⟨hne, hfree⟩ := h.instruction i hi
      have hmarkup := markup?_instructionBody hne hfree
        (s.lead ++ (s.root.element ++ s.root.tail))
      have hbody : instructionBody i ≠ [] := List.cons_ne_nil _ _
      have hread := tokens_markup hbody hmarkup
      have hshape : rawOf (some (instructionLexeme i)).toList ++ s.lead ++
          (s.root.element ++ s.root.tail) =
            '<' :: (instructionBody i ++ (s.lead ++ (s.root.element ++ s.root.tail))) := by
        simp [rawOf, instructionLexeme]
      rw [Option.map_some, hshape, hread, hlead]
      rfl

/-- The tokens of a document are nested as they should be. -/
theorem nested_write (s : Sheet) : nested true [] s.lexemes = ⟨s.lexemes, true⟩ := by
  have hinstruction : Content (s.instruction.map instructionLexeme).toList := by
    cases s.instruction with
    | none => exact .nil
    | some i => exact .plain rfl .nil
  have hfront : Content s.front := hinstruction.append (Outline.content_textLexemes s.lead)
  have hroot := (Outline.whole_lexemes s.root).content
  have hcontent := hfront.append (hroot.append (Outline.content_textLexemes s.root.tail))
  exact hcontent.nested_eq true

/-- A document is read to its end, as it was written. -/
theorem scan_write {s : Sheet} (h : s.Fits) : scan s.write = ⟨s.lexemes, true⟩ := by
  rw [scan, tokens_write h]
  dsimp only
  rw [nested_write]

/-- The elements of a name in a document are those that were written. -/
theorem seen_lexemes {s : Sheet} (h : s.Fits) (wanted : List Char) :
    seen wanted 0 s.lexemes = ((s.root.found wanted).map Outline.key, true) := by
  have hinstruction : ∃ next, ∀ ls, seen wanted 0
      ((s.instruction.map instructionLexeme).toList ++ ls) = seen wanted next ls := by
    cases s.instruction with
    | none => exact ⟨0, fun _ => rfl⟩
    | some i => exact ⟨_, fun _ => seen_nothing rfl⟩
  obtain ⟨next, hnext⟩ := hinstruction
  obtain ⟨next', hnext'⟩ := exists_seen_textLexemes wanted next s.lead
    (s.root.lexemes ++ Outline.textLexemes s.root.tail)
  obtain ⟨next'', hnext''⟩ := Outline.exists_seen_lexemes wanted s.root h.root next'
    (Outline.textLexemes s.root.tail)
  obtain ⟨last, hlast⟩ := exists_seen_textLexemes wanted next'' s.root.tail []
  have hend : seen wanted last [] = ([], true) := by
    rw [seen, elementsFrom]
    rfl
  rw [List.append_nil] at hlast
  rw [lexemes, front, List.append_assoc, hnext, hnext', hnext'', hlast, hend, followedBy,
    List.append_nil]

theorem head?_write (s : Sheet) (h : s.Fits) : s.write.head? ≠ some mark := by
  rw [write, front, Outline.rawOf_append, Outline.rawOf_textLexemes]
  cases s.instruction with
  | some i => exact fun he => absurd (Option.some.inj he) (by decide)
  | none =>
      show (s.lead ++ (s.root.element ++ s.root.tail)).head? ≠ some mark
      cases hl : s.lead with
      | nil =>
          rw [List.nil_append, List.head?_append, Outline.head?_element]
          exact fun he => absurd (Option.some.inj he) (by decide)
      | cons c lead =>
          intro he
          have hc := h.lead c (hl ▸ List.mem_cons_self)
          rw [Option.some.inj he] at hc
          cases hc

theorem ofBytes_write {s : Sheet} (h : s.Fits) :
    Document.ofBytes (Text.Utf8.encode s.write) = ⟨false, s.write⟩ := by
  rw [Document.ofBytes, Text.Utf8.decodeLenient_encode, Document.ofChars_of_head (s.head?_write h)]

/-- The elements of a name that are found in a document are those that were written. -/
theorem exists_elements_write {s : Sheet} (h : s.Fits) (wanted : List Char) :
    ∃ es, Document.elements ⟨false, s.write⟩ wanted = (es, true) ∧
      es.map (fun e => (e.name, e.raw)) = (s.root.found wanted).map Outline.key := by
  obtain ⟨hkeys, hclosed⟩ := Prod.mk.inj (s.seen_lexemes h wanted)
  refine ⟨_, ?_, hkeys⟩
  simp only [Document.elements, scan_write h, hclosed, Bool.and_true]

end Sheet

/-- An element that was written is read as its node, where it is cut out as it is. -/
theorem Outline.ofFragment?_source {o : Outline} (h : o.Fits) {e : Element}
    (he : (e.name, e.raw) = o.key) : Node.ofFragment? e.source = some o.node := by
  obtain ⟨hname, hraw⟩ := Prod.mk.inj he
  have hplain : isQualified e.name = false := by
    rw [hname, isQualified, localName_of_fits h.nameFits]
    simp
  have hsource : e.source = o.element := by
    rw [Element.source, hplain, hraw]
    rfl
  rw [hsource, ofFragment?_element h]

end Holdings.Xml

namespace Holdings.Markup

open Xml

/-- The outcome of an element with a plain name. -/
theorem outcome_source {name : String} {grant : Nat → Node → Option Outcome} {o : Outline}
    (h : o.Fits) (index : Nat) {e : Element} (he : (e.name, e.raw) = o.key) :
    outcome name grant e.source index =
      (grant index o.node).getD (.refused (.malformed name index)) := by
  rw [outcome, Outline.ofFragment?_source h he, Option.bind_some]
  cases grant index o.node <;> rfl

theorem outcomes_sources {name : String} {grant : Nat → Node → Option Outcome}
    {es : List Element} {os : List Outline} (hos : ∀ o ∈ os, o.Fits)
    (h : es.map (fun e => (e.name, e.raw)) = os.map Outline.key) (first : Nat) :
    outcomes name grant first (es.map Element.source) =
      (os.zipIdx first).map fun (o, index) =>
        (grant index o.node).getD (.refused (.malformed name index)) := by
  induction os generalizing es first with
  | nil =>
      rw [List.map_nil, List.map_eq_nil_iff] at h
      rw [h]
      rfl
  | cons o os ih =>
      cases es with
      | nil => cases h
      | cons e es =>
          obtain ⟨he, hes⟩ := List.cons.inj h
          rw [List.map_cons, outcomes_cons, List.zipIdx_cons, List.map_cons,
            ih (fun x hx => hos x (List.mem_cons_of_mem _ hx)) hes,
            outcome_source (hos o List.mem_cons_self) first he]

/-- What a reader makes of the elements of a name is what it makes of the trees that were
written. -/
theorem survey_written {s : Sheet} (h : s.Fits) (name : String)
    (grant : Nat → Node → Option Outcome) :
    survey name grant (Text.Utf8.encode s.write) =
      ⟨((s.root.found name.toList).zipIdx 1).map fun (o, index) =>
        (grant index o.node).getD (.refused (.malformed name index)), .complete⟩ := by
  obtain ⟨es, helements, hkeys⟩ := Sheet.exists_elements_write h name.toList
  rw [survey_of_document (Sheet.ofBytes_write h), helements]
  dsimp only
  rw [outcomes_sources h.root.found hkeys]
  rfl

end Holdings.Markup
