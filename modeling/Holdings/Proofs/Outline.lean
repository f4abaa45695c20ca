import Holdings.Proofs.Columns
import Holdings.Xml.Content
/-!
# Markup that is written

Elements as they are written: with a text, with elements and blanks between them, or empty, and
with attributes that are well formed. What is written so is cut into the tokens that it was
written from (`tokens_element`), and its tags fit (`whole_lexemes`). That tags fit is said of any
lexemes, with whatever stands between the tags: everything that is opened is closed (`Content`).
-/

namespace Holdings.Xml

/-! ## Names and attributes -/

/-- Whether a character may stand in the name of an element that is written: it is no blank, no
part of a tag or an instruction, and not the colon of a qualifier. -/
def isNameChar (c : Char) : Bool :=
  !Text.isSpacing c && not (['<', '>', '/', '"', '\'', ':', '!', '?'].contains c)

theorem isNameChar_iff {c : Char} : isNameChar c = true ↔
    Text.isSpacing c = false ∧ c ≠ '<' ∧ c ≠ '>' ∧ c ≠ '/' ∧ c ≠ '"' ∧ c ≠ '\'' ∧ c ≠ ':' ∧
      c ≠ '!' ∧ c ≠ '?' := by
  simp [isNameChar]

/-- A name as it may be written. -/
structure NameFits (name : List Char) : Prop where
  ne : name ≠ []
  chars : ∀ c ∈ name, isNameChar c = true

instance (name : List Char) : Decidable (NameFits name) :=
  decidable_of_iff (name ≠ [] ∧ name.all isNameChar = true)
    ⟨fun h => ⟨h.1, List.all_eq_true.mp h.2⟩, fun h => ⟨h.ne, List.all_eq_true.mpr h.chars⟩⟩

theorem NameFits.not_mem {name : List Char} (h : NameFits name) {c : Char}
    (hc : isNameChar c = false) : c ∉ name := by
  intro hm
  rw [h.chars c hm] at hc
  cases hc

/-- Attributes as they may be written: apart from the name, with all quotes closed, without a slash
at their end, and well formed. -/
structure AttributesFit (attributes : List Char) : Prop where
  apart : ∀ c, attributes.head? = some c → Text.isSpacing c = true
  closed : tagBody? none (attributes ++ ['>']) = some attributes
  noSlash : attributes.getLast? ≠ some '/'
  wellFormed : wellFormed attributes = true

theorem attributesFit_nil : AttributesFit [] :=
  ⟨nofun, rfl, nofun, by cbv⟩

/-- Whether a character may stand in the name of a tag, which may have a qualifier. -/
def isTagChar (c : Char) : Bool :=
  !Text.isSpacing c && not (['<', '>', '/', '"', '\'', '!', '?'].contains c)

theorem isTagChar_iff {c : Char} : isTagChar c = true ↔
    Text.isSpacing c = false ∧ c ≠ '<' ∧ c ≠ '>' ∧ c ≠ '/' ∧ c ≠ '"' ∧ c ≠ '\'' ∧ c ≠ '!' ∧
      c ≠ '?' := by
  simp [isTagChar]

/-- The name of a tag, with a qualifier or without. -/
structure TagName (name : List Char) : Prop where
  ne : name ≠ []
  chars : ∀ c ∈ name, isTagChar c = true

theorem TagName.not_mem {name : List Char} (h : TagName name) {c : Char}
    (hc : isTagChar c = false) : c ∉ name := by
  intro hm
  rw [h.chars c hm] at hc
  cases hc

theorem NameFits.tagName {name : List Char} (h : NameFits name) : TagName name where
  ne := h.ne
  chars := by
    intro c hc
    obtain ⟨hspacing, hlt, hgt, hslash, hquote, hquote', -, hmark, hask⟩ :=
      isNameChar_iff.mp (h.chars c hc)
    exact isTagChar_iff.mpr ⟨hspacing, hlt, hgt, hslash, hquote, hquote', hmark, hask⟩

/-- Attributes that a tag can have, well formed or not: apart from the name, with all quotes closed,
and without a slash at their end. -/
structure Enclosed (attributes : List Char) : Prop where
  apart : ∀ c, attributes.head? = some c → Text.isSpacing c = true
  closed : tagBody? none (attributes ++ ['>']) = some attributes
  noSlash : attributes.getLast? ≠ some '/'

theorem AttributesFit.enclosed {attributes : List Char} (h : AttributesFit attributes) :
    Enclosed attributes :=
  ⟨h.apart, h.closed, h.noSlash⟩

/-! ## Elements -/

/-- A text without the blanks at its ends. -/
def trimBlanks (s : List Char) : List Char := (skipBlanks (skipBlanks s).reverse).reverse

/-- An element as it is written, with the blanks after it: with a text in it, with elements in it
after some blanks, or empty. -/
inductive Outline where
  | leaf (name attributes text tail : List Char)
  | branch (name attributes lead : List Char) (children : List Outline) (tail : List Char)
  | empty (name attributes tail : List Char)

namespace Outline

/-- The name of an element. -/
def name : Outline → List Char
  | .leaf name _ _ _ => name
  | .branch name _ _ _ _ => name
  | .empty name _ _ => name

/-- The attributes of an element. -/
def attributes : Outline → List Char
  | .leaf _ attributes _ _ => attributes
  | .branch _ attributes _ _ _ => attributes
  | .empty _ attributes _ => attributes

/-- The blanks after an element. -/
def tail : Outline → List Char
  | .leaf _ _ _ tail => tail
  | .branch _ _ _ _ tail => tail
  | .empty _ _ tail => tail

/-- The tag that opens an element, without its first bracket. -/
def openBody (name attributes : List Char) : List Char := name ++ attributes ++ ['>']

/-- The tag of an empty element, without its first bracket. -/
def emptyBody (name attributes : List Char) : List Char := name ++ attributes ++ ['/', '>']

/-- The tag that closes an element, without its first bracket. -/
def closeBody (name : List Char) : List Char := '/' :: (name ++ ['>'])

mutual
/-- An element as it is written, without the blanks after it. -/
def element : Outline → List Char
  | .leaf name attributes text _ =>
    '<' :: openBody name attributes ++ (text ++ '<' :: closeBody name)
  | .branch name attributes lead children _ =>
    '<' :: openBody name attributes ++ (lead ++ (elements children ++ '<' :: closeBody name))
  | .empty name attributes _ => '<' :: emptyBody name attributes
/-- Elements as they are written one after the other, with the blanks after each. -/
def elements : List Outline → List Char
  | [] => []
  | o :: os => o.element ++ (o.tail ++ elements os)
end

mutual
/-- Whether all names and attributes can be written, no text starts a tag, the references in texts
have a meaning, and there is nothing but blanks around elements. -/
def Fits : Outline → Prop
  | .leaf name attributes text tail =>
    NameFits name ∧ AttributesFit attributes ∧ '<' ∉ text ∧
      (resolve? (trimBlanks text)).isSome = true ∧ ∀ c ∈ tail, Text.isSpacing c = true
  | .branch name attributes lead children tail =>
    NameFits name ∧ AttributesFit attributes ∧ (∀ c ∈ lead, Text.isSpacing c = true) ∧
      AllFit children ∧ ∀ c ∈ tail, Text.isSpacing c = true
  | .empty name attributes tail =>
    NameFits name ∧ AttributesFit attributes ∧ ∀ c ∈ tail, Text.isSpacing c = true
/-- Whether all of some elements can be written. -/
def AllFit : List Outline → Prop
  | [] => True
  | o :: os => o.Fits ∧ AllFit os
end

/-! ## Tokens -/

/-- The lexeme of a text, if there is one. -/
def textLexemes (s : List Char) : List Lexeme := if s = [] then [] else [⟨.text s, s⟩]

/-- The lexeme of the tag that opens an element. -/
def openLexeme (name attributes : List Char) : Lexeme :=
  ⟨.opening name attributes, '<' :: openBody name attributes⟩

/-- The lexeme of the tag that closes an element. -/
def closeLexeme (name : List Char) : Lexeme := ⟨.closing name, '<' :: closeBody name⟩

/-- The lexeme of the tag of an empty element. -/
def emptyLexeme (name attributes : List Char) : Lexeme :=
  ⟨.empty name attributes, '<' :: emptyBody name attributes⟩

mutual
/-- The lexemes of an element. -/
def lexemes : Outline → List Lexeme
  | .leaf name attributes text _ =>
    openLexeme name attributes :: (textLexemes text ++ [closeLexeme name])
  | .branch name attributes lead children _ =>
    openLexeme name attributes ::
      (textLexemes lead ++ (allLexemes children ++ [closeLexeme name]))
  | .empty name attributes _ => [emptyLexeme name attributes]
/-- The lexemes of elements and of the blanks after them. -/
def allLexemes : List Outline → List Lexeme
  | [] => []
  | o :: os => o.lexemes ++ (textLexemes o.tail ++ allLexemes os)
end

theorem rawOf_append (ls ms : List Lexeme) : rawOf (ls ++ ms) = rawOf ls ++ rawOf ms :=
  List.flatMap_append

theorem rawOf_singleton (l : Lexeme) : rawOf [l] = l.raw := List.append_nil _

theorem rawOf_textLexemes (s : List Char) : rawOf (textLexemes s) = s := by
  rw [textLexemes]
  split
  · next h => rw [h]; rfl
  · exact List.append_nil s

theorem lexemes_leaf_append (name attributes text tail : List Char) (ls : List Lexeme) :
    (leaf name attributes text tail).lexemes ++ ls =
      openLexeme name attributes :: (textLexemes text ++ closeLexeme name :: ls) := by
  simp [lexemes]

theorem lexemes_branch_append (name attributes lead : List Char) (children : List Outline)
    (tail : List Char) (ls : List Lexeme) :
    (branch name attributes lead children tail).lexemes ++ ls =
      openLexeme name attributes ::
        (textLexemes lead ++ (allLexemes children ++ closeLexeme name :: ls)) := by
  simp [lexemes]

mutual
theorem rawOf_lexemes : ∀ o : Outline, rawOf o.lexemes = o.element
  | .leaf name attributes text _ => by
      show '<' :: openBody name attributes ++ rawOf (textLexemes text ++ [closeLexeme name]) = _
      rw [rawOf_append, rawOf_textLexemes, rawOf_singleton]
      rfl
  | .branch name attributes lead children _ => by
      show '<' :: openBody name attributes ++
        rawOf (textLexemes lead ++ (allLexemes children ++ [closeLexeme name])) = _
      rw [rawOf_append, rawOf_append, rawOf_textLexemes, rawOf_allLexemes children,
        rawOf_singleton]
      rfl
  | .empty name attributes _ => List.append_nil _
theorem rawOf_allLexemes : ∀ os : List Outline, rawOf (allLexemes os) = elements os
  | [] => rfl
  | o :: os => by
      rw [allLexemes, rawOf_append, rawOf_append, rawOf_textLexemes, rawOf_lexemes o,
        rawOf_allLexemes os, elements]
end

end Outline

/-! ## Reading single tags -/

theorem tagBody?_append {quote : Option Char} {s : List Char}
    (h : tagBody? quote (s ++ ['>']) = some s) (t : List Char) :
    tagBody? quote (s ++ t) = (tagBody? none t).map (s ++ ·) := by
  induction s generalizing quote with
  | nil =>
      cases quote with
      | none => simp
      | some q => cases h
  | cons c s ih =>
      cases quote with
      | some q =>
          simp only [List.cons_append, tagBody?, Option.map_eq_some_iff, List.cons.injEq, true_and,
            exists_eq_right] at h ⊢
          rw [ih h, Option.map_map]
          rfl
      | none =>
          simp only [List.cons_append, tagBody?] at h ⊢
          split at h
          · cases h
          · next hc =>
            simp only [Option.map_eq_some_iff, List.cons.injEq, true_and, exists_eq_right] at h
            rw [if_neg hc, ih h, Option.map_map]
            rfl

/-- Without brackets and quotes, nothing ends before the bracket. -/
theorem tagBody?_plain {s : List Char} (h : ∀ c ∈ s, c ≠ '>' ∧ c ≠ '"' ∧ c ≠ '\'') :
    tagBody? none (s ++ ['>']) = some s := by
  induction s with
  | nil => rfl
  | cons c s ih =>
      obtain ⟨⟨hgt, hquote, hquote'⟩, hs⟩ := List.forall_mem_cons.mp h
      have hno : ¬ (c = '"' ∨ c = '\'') := fun hc => hc.elim hquote hquote'
      rw [List.cons_append, tagBody?, if_neg hgt, if_neg hno, ih hs]
      rfl

theorem tagBody?_name {name : List Char} (h : TagName name) (t : List Char) :
    tagBody? none (name ++ t) = (tagBody? none t).map (name ++ ·) := by
  refine tagBody?_append (tagBody?_plain fun c hc => ?_) t
  obtain ⟨-, -, hgt, -, hquote, hquote', -⟩ := isTagChar_iff.mp (h.chars c hc)
  exact ⟨hgt, hquote, hquote'⟩

theorem upToBracket_append {body : List Char} (hbody : '>' ∉ body) (rest : List Char) :
    upToBracket (body ++ '>' :: rest) = (body, body.length + 1) := by
  have htake : (body ++ '>' :: rest).takeWhile (· ≠ '>') = body := by
    apply takeWhile_append_stop
    · intro c hc
      exact decide_eq_true fun he => hbody (he ▸ hc)
    · intro c hc
      rw [← Option.some.inj hc]
      rfl
  rw [upToBracket, htake]
  simp

/-- A name without a blank at its end stands in a closing tag as it is. -/
theorem closingName_of_getLast? {name : List Char}
    (h : ∀ c, name.getLast? = some c → Text.isSpacing c = false) : closingName name = name := by
  have hdrop : name.reverse.dropWhile Text.isSpacing = name.reverse := by
    have hhead : ∀ c, name.reverse.head? = some c → Text.isSpacing c = false :=
      fun c hc => h c (List.head?_reverse ▸ hc)
    rw [← List.nil_append name.reverse]
    exact dropWhile_append_stop nofun hhead
  rw [closingName, hdrop, List.reverse_reverse, ite_self]

section

variable {name attributes : List Char}

theorem takeWhile_name (hn : TagName name) (ha : Enclosed attributes) :
    (name ++ attributes).takeWhile (!Text.isSpacing ·) = name ∧
      (name ++ attributes).dropWhile (!Text.isSpacing ·) = attributes := by
  have hchars : ∀ c ∈ name, (!Text.isSpacing c) = true := by
    intro c hc
    rw [(isTagChar_iff.mp (hn.chars c hc)).1]
    rfl
  have hstop : ∀ c, attributes.head? = some c → (!Text.isSpacing c) = false := by
    intro c hc
    rw [ha.apart c hc]
    rfl
  exact ⟨takeWhile_append_stop hchars hstop, dropWhile_append_stop hchars hstop⟩

/-- Markup that starts with a name is a tag. -/
theorem markup?_name (hn : TagName name) (t : List Char) :
    markup? (name ++ t) = tag? (name ++ t) := by
  obtain ⟨c, name, rfl⟩ := List.exists_cons_of_ne_nil hn.ne
  obtain ⟨-, -, -, hslash, -, -, hmark, hask⟩ :=
    isTagChar_iff.mp (hn.chars c List.mem_cons_self)
  rw [List.cons_append]
  unfold markup?
  split
  · next he => exact absurd (List.cons.inj he).1 hmark
  · next he => exact absurd (List.cons.inj he).1 hslash
  · next he => exact absurd (List.cons.inj he).1 hask
  · rfl

theorem markup?_openBody (hn : TagName name) (ha : Enclosed attributes)
    (rest : List Char) :
    markup? (Outline.openBody name attributes ++ rest) =
      some (.opening name attributes, (Outline.openBody name attributes).length) := by
  have hbody : tagBody? none (name ++ (attributes ++ '>' :: rest)) = some (name ++ attributes) := by
    rw [tagBody?_name hn, tagBody?_append ha.closed]
    simp [tagBody?]
  have hlast : (name ++ attributes).getLast? ≠ some '/' := by
    rw [List.getLast?_append]
    cases hattributes : attributes.getLast? with
    | some c => rw [Option.some_or, ← hattributes]; exact ha.noSlash
    | none =>
        rw [Option.none_or]
        intro hname
        exact hn.not_mem (c := '/') rfl (List.mem_of_getLast? hname)
  obtain ⟨htake, hdrop⟩ := takeWhile_name hn ha
  have hshape : Outline.openBody name attributes ++ rest = name ++ (attributes ++ '>' :: rest) := by
    simp [Outline.openBody]
  rw [hshape, markup?_name hn, tag?, hbody]
  simp only [Option.bind_eq_bind, Option.bind_some, if_neg hlast, htake, hdrop]
  simp [Outline.openBody, Nat.add_assoc]

theorem markup?_emptyBody (hn : TagName name) (ha : Enclosed attributes)
    (rest : List Char) :
    markup? (Outline.emptyBody name attributes ++ rest) =
      some (.empty name attributes, (Outline.emptyBody name attributes).length) := by
  have hbody : tagBody? none (name ++ (attributes ++ '/' :: '>' :: rest)) =
      some (name ++ attributes ++ ['/']) := by
    rw [tagBody?_name hn, tagBody?_append ha.closed]
    simp [tagBody?]
  obtain ⟨htake, hdrop⟩ := takeWhile_name hn ha
  have hshape : Outline.emptyBody name attributes ++ rest =
      name ++ (attributes ++ '/' :: '>' :: rest) := by
    simp [Outline.emptyBody]
  rw [hshape, markup?_name hn, tag?, hbody]
  simp only [Option.bind_eq_bind, Option.bind_some, List.getLast?_concat, if_true,
    List.dropLast_concat, htake, hdrop]
  simp [Outline.emptyBody, Nat.add_assoc]

/-- A closing tag ends with its first bracket. -/
theorem markup?_closeBody {body : List Char} (hbody : '>' ∉ body) (rest : List Char) :
    markup? (Outline.closeBody body ++ rest) =
      some (.closing (closingName body), (Outline.closeBody body).length) := by
  have hread : markup? ('/' :: (body ++ '>' :: rest)) =
      some (.closing (closingName (upToBracket (body ++ '>' :: rest)).1),
        (upToBracket (body ++ '>' :: rest)).2 + 1) := rfl
  have hshape : Outline.closeBody body ++ rest = '/' :: (body ++ '>' :: rest) := by
    simp [Outline.closeBody]
  rw [hshape, hread, upToBracket_append hbody]
  simp [Outline.closeBody]

end

/-! ## Reading what was written -/

/-- A scan with some lexemes in front. -/
def Scan.prepend (ls : List Lexeme) (s : Scan) : Scan := ⟨ls ++ s.lexemes, s.intact⟩

theorem Scan.prepend_append (ls ms : List Lexeme) (s : Scan) :
    s.prepend (ls ++ ms) = (s.prepend ms).prepend ls := by
  simp [prepend]

theorem tokens_markup {t : Token} {body rest : List Char} (hne : body ≠ [])
    (h : markup? (body ++ rest) = some (t, body.length)) :
    tokens ('<' :: (body ++ rest)) = (tokens rest).cons ⟨t, '<' :: body⟩ := by
  have hbody : body ++ rest ≠ [] := fun he => hne (List.append_eq_nil_iff.mp he).1
  rw [tokens, if_pos rfl, if_neg hbody, h]
  simp

/-- A text goes on to the next tag or to the end. -/
theorem tokens_text {s rest : List Char} (hs : '<' ∉ s)
    (hrest : ∀ c, rest.head? = some c → c = '<') :
    tokens (s ++ rest) = (tokens rest).prepend (Outline.textLexemes s) := by
  cases s with
  | nil => rfl
  | cons c s =>
      have hc : c ≠ '<' := fun he => hs (he ▸ List.mem_cons_self)
      have htake : (s ++ rest).takeWhile (· ≠ '<') = s := by
        apply takeWhile_append_stop
        · intro d hd
          exact decide_eq_true fun he => hs (he ▸ List.mem_cons_of_mem _ hd)
        · intro d hd
          rw [hrest d hd]
          rfl
      rw [List.cons_append, tokens, if_neg hc, htake]
      simp [Scan.cons, Scan.prepend, Outline.textLexemes]

/-! ## What is opened is closed -/

/-- Whether a token is one of a pair of tags. -/
def Token.isPaired : Token → Bool
  | .opening .. => true
  | .closing _ => true
  | _ => false

/-- Lexemes in which everything that is opened is closed. -/
inductive Content : List Lexeme → Prop
  | nil : Content []
  | plain {l : Lexeme} {ls : List Lexeme} (hplain : l.token.isPaired = false) :
      Content ls → Content (l :: ls)
  | element {name attributes raw raw' : List Char} {inside ls : List Lexeme} :
      Content inside → Content ls →
      Content (⟨.opening name attributes, raw⟩ :: (inside ++ ⟨.closing name, raw'⟩ :: ls))

/-- The lexemes of one element of a name: a tag that is empty, or a tag that is opened and the one
that closes it, with what is between them. -/
inductive Whole (name : List Char) : List Lexeme → Prop
  | empty {attributes raw : List Char} : Whole name [⟨.empty name attributes, raw⟩]
  | tags {attributes raw raw' : List Char} {inside : List Lexeme} : Content inside →
      Whole name (⟨.opening name attributes, raw⟩ :: (inside ++ [⟨.closing name, raw'⟩]))

theorem Content.append {ls ms : List Lexeme} (h : Content ls) (h' : Content ms) :
    Content (ls ++ ms) := by
  induction h with
  | nil => exact h'
  | plain hplain _ ih => exact .plain hplain ih
  | element hinside _ _ ih =>
      rw [List.cons_append, List.append_assoc]
      exact .element hinside ih

theorem Whole.content {name : List Char} {ls : List Lexeme} (h : Whole name ls) : Content ls := by
  cases h with
  | empty => exact .plain rfl .nil
  | tags hinside => exact .element hinside .nil

/-- Tags that fit by themselves fit inside of any elements. -/
theorem Content.nested_append {ls : List Lexeme} (h : Content ls) (intact : Bool)
    (openNames : List (List Char)) (more : List Lexeme) :
    nested intact openNames (ls ++ more) = (nested intact openNames more).prepend ls := by
  induction h generalizing openNames more with
  | nil => rfl
  | @plain l ls hplain _ ih =>
      have hnext : nested intact openNames (l :: (ls ++ more)) =
          (nested intact openNames (ls ++ more)).cons l := by
        obtain ⟨token, raw⟩ := l
        cases token with
        | opening name attributes => cases hplain
        | closing name => cases hplain
        | empty _ _ | text _ | characters _ | comment | instruction | documentType => rfl
      rw [List.cons_append, hnext, ih]
      rfl
  | @element name attributes raw raw' inside ls _ _ ihinside ihls =>
      rw [List.cons_append, List.append_assoc, nested]
      dsimp only
      rw [ihinside, List.cons_append, nested]
      dsimp only
      rw [if_pos rfl, ihls]
      simp [Scan.cons, Scan.prepend]

theorem Content.nested_eq {ls : List Lexeme} (h : Content ls) (intact : Bool) :
    nested intact [] ls = ⟨ls, intact⟩ := by
  have hnested := h.nested_append intact [] []
  rw [List.append_nil] at hnested
  rw [hnested]
  simp [Scan.prepend, nested]

theorem Content.spanLength?_append {ls : List Lexeme} (h : Content ls) (depth : Nat)
    (more : List Lexeme) :
    spanLength? depth (ls ++ more) = (spanLength? depth more).map (· + ls.length) := by
  induction h generalizing depth more with
  | nil => simp
  | @plain l ls hplain _ ih =>
      have hnext : spanLength? depth (l :: (ls ++ more)) =
          (spanLength? depth (ls ++ more)).map (· + 1) := by
        obtain ⟨token, raw⟩ := l
        cases token with
        | opening name attributes => cases hplain
        | closing name => cases hplain
        | empty _ _ | text _ | characters _ | comment | instruction | documentType =>
            cases depth <;> rfl
      rw [List.cons_append, hnext, ih, Option.map_map]
      rfl
  | @element name attributes raw raw' inside ls _ _ ihinside ihls =>
      have hopening : ∀ rest, spanLength? depth (⟨.opening name attributes, raw⟩ :: rest) =
          (spanLength? (depth + 1) rest).map (· + 1) := fun rest => rfl
      have hclosing : ∀ rest, spanLength? (depth + 1) (⟨.closing name, raw'⟩ :: rest) =
          (spanLength? depth rest).map (· + 1) := fun rest => rfl
      rw [List.cons_append, List.append_assoc, hopening, ihinside, List.cons_append, hclosing, ihls]
      simp only [Option.map_map]
      congr 1
      funext n
      simp
      omega

namespace Outline

theorem not_mem_of_spacing {s : List Char} (h : ∀ c ∈ s, Text.isSpacing c = true) : '<' ∉ s := by
  intro hm
  have := h _ hm
  cases this

theorem Fits.tail {o : Outline} (h : o.Fits) : ∀ c ∈ o.tail, Text.isSpacing c = true := by
  cases o with
  | leaf name attributes text tail => exact h.2.2.2.2
  | branch name attributes lead children tail => exact h.2.2.2.2
  | empty name attributes tail => exact h.2.2

theorem Fits.nameFits {o : Outline} (h : o.Fits) : NameFits o.name := by
  cases o <;> exact h.1

theorem Fits.attributesFit {o : Outline} (h : o.Fits) : AttributesFit o.attributes := by
  cases o with
  | leaf name attributes text tail => exact h.2.1
  | branch name attributes lead children tail => exact h.2.1
  | empty name attributes tail => exact h.2.1

theorem tokens_openBody {name attributes : List Char} (hn : NameFits name)
    (ha : AttributesFit attributes) (rest : List Char) :
    tokens ('<' :: (openBody name attributes ++ rest)) =
      (tokens rest).prepend [openLexeme name attributes] :=
  tokens_markup (by simp [openBody]) (markup?_openBody hn.tagName ha.enclosed rest)

theorem tokens_closeBody {name : List Char} (hn : NameFits name) (rest : List Char) :
    tokens ('<' :: (closeBody name ++ rest)) = (tokens rest).prepend [closeLexeme name] := by
  have hclosing : closingName name = name := closingName_of_getLast? fun c hc =>
    (isNameChar_iff.mp (hn.chars c (List.mem_of_getLast? hc))).1
  have hmarkup := markup?_closeBody (hn.not_mem (c := '>') rfl) rest
  rw [hclosing] at hmarkup
  exact tokens_markup (List.cons_ne_nil _ _) hmarkup

theorem head?_element (o : Outline) : o.element.head? = some '<' := by
  cases o <;> rfl

theorem head?_elements_append (os : List Outline) (rest : List Char) :
    ∀ c, (elements os ++ '<' :: rest).head? = some c → c = '<' := by
  intro c hc
  cases os with
  | nil => exact (Option.some.inj hc).symm
  | cons o os =>
      rw [elements, List.append_assoc, List.head?_append, head?_element] at hc
      exact (Option.some.inj hc).symm

mutual
/-- An element is cut into the tokens that it was written from, whatever comes after it. -/
theorem tokens_element : ∀ o : Outline, o.Fits → ∀ rest : List Char,
    tokens (o.element ++ rest) = (tokens rest).prepend o.lexemes
  | .leaf name attributes text tail, h, rest => by
      obtain ⟨hn, ha, htext, -, -⟩ := h
      have hshape : (leaf name attributes text tail).element ++ rest =
          '<' :: (openBody name attributes ++ (text ++ '<' :: (closeBody name ++ rest))) := by
        simp [element]
      have hnext : ∀ c, ('<' :: (closeBody name ++ rest)).head? = some c → c = '<' :=
        fun c hc => (Option.some.inj hc).symm
      rw [hshape, tokens_openBody hn ha, tokens_text htext hnext, tokens_closeBody hn]
      simp [Scan.prepend, lexemes]
  | .branch name attributes lead children tail, h, rest => by
      obtain ⟨hn, ha, hlead, hchildren, -⟩ := h
      have hshape : (branch name attributes lead children tail).element ++ rest =
          '<' :: (openBody name attributes ++
            (lead ++ (elements children ++ '<' :: (closeBody name ++ rest)))) := by
        simp [element]
      rw [hshape, tokens_openBody hn ha,
        tokens_text (not_mem_of_spacing hlead) (head?_elements_append children _),
        tokens_elements children hchildren, tokens_closeBody hn]
      simp [Scan.prepend, lexemes]
  | .empty name attributes tail, h, rest => by
      obtain ⟨hn, ha, -⟩ := h
      exact tokens_markup (by simp [emptyBody]) (markup?_emptyBody hn.tagName ha.enclosed rest)
/-- Elements are cut into the tokens that they were written from, if a tag comes after them. -/
theorem tokens_elements : ∀ os : List Outline, AllFit os → ∀ rest : List Char,
    tokens (elements os ++ '<' :: rest) = (tokens ('<' :: rest)).prepend (allLexemes os)
  | [], _, rest => rfl
  | o :: os, h, rest => by
      rw [elements, List.append_assoc, List.append_assoc, tokens_element o h.1,
        tokens_text (not_mem_of_spacing h.1.tail) (head?_elements_append os rest),
        tokens_elements os h.2,
        ← Scan.prepend_append, ← Scan.prepend_append, allLexemes, List.append_assoc]
end

/-! ## Tags fit -/

theorem content_textLexemes (s : List Char) : Content (textLexemes s) := by
  rw [textLexemes]
  split
  · exact .nil
  · exact .plain rfl .nil

mutual
/-- An element closes what it opens. -/
theorem whole_lexemes : ∀ o : Outline, Whole o.name o.lexemes
  | .leaf _ _ text _ => .tags (content_textLexemes text)
  | .branch name attributes lead children tail => by
      have hinside := (content_textLexemes lead).append (content_allLexemes children)
      rw [lexemes, ← List.append_assoc]
      exact .tags hinside
  | .empty .. => .empty
theorem content_allLexemes : ∀ os : List Outline, Content (allLexemes os)
  | [] => .nil
  | o :: os =>
      (whole_lexemes o).content.append ((content_textLexemes o.tail).append (content_allLexemes os))
end

/-- An element that stands by itself is read to its end. -/
theorem scan_element {o : Outline} (h : o.Fits) : scan o.element = ⟨o.lexemes, true⟩ := by
  have htokens := tokens_element o h []
  have hnil : tokens [] = ⟨[], true⟩ := by rw [tokens]
  rw [List.append_nil, hnil] at htokens
  rw [scan, htokens]
  simp only [Scan.prepend, List.append_nil]
  exact (whole_lexemes o).content.nested_eq true

end Outline

end Holdings.Xml
