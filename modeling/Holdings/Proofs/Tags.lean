import Mathlib.Data.List.Chain
import Holdings.Proofs.Fields
import Holdings.Proofs.Spans
/-!
# Documents as tags and texts

A document without comments, character data and instructions is a row of tags and texts, whether its
tags fit or not. Its tags are cut again as they were written (`Part.tokens_writeAll`), and whether
the attributes of a tag are well formed is only a question of their names
(`Attribute.wellFormed_writeAll`).
-/

namespace Holdings.Xml

/-! ## Attributes -/

/-- An attribute as it is written: blanks, a name, an equals sign with blanks around it, and a value
in quotes. -/
structure Attribute where
  lead : List Char
  name : List Char
  before : List Char
  after : List Char
  quote : Char
  value : List Char

/-- Whether a character may stand in the name of an attribute: no white space, nothing that ends a
name, and nothing of markup. -/
def isAttributeChar (c : Char) : Bool :=
  !Text.isBlank c && not (['<', '>', '=', '"', '\''].contains c)

theorem isAttributeChar_iff {c : Char} : isAttributeChar c = true ↔
    Text.isBlank c = false ∧ c ≠ '<' ∧ c ≠ '>' ∧ c ≠ '=' ∧ c ≠ '"' ∧ c ≠ '\'' := by
  simp [isAttributeChar]

/-- No white space stands right before the letters that a declaration of a name space begins
with. -/
def Undeclaring (s : List Char) : Prop :=
  ∀ b, Text.isBlank b = true → ¬ (b :: "xmlns".toList) <:+: s

/-- So it is in a text without these letters. -/
theorem undeclaring_of_not_infix {s : List Char} (h : ¬ "xmlns".toList <:+: s) : Undeclaring s :=
  fun b _ hb => h ((List.suffix_cons b _).isInfix.trans hb)

namespace Attribute

/-- An attribute behind the blanks before it. -/
def body (a : Attribute) : List Char :=
  a.name ++ (a.before ++ '=' :: (a.after ++ a.quote :: (a.value ++ [a.quote])))

/-- The characters of an attribute. -/
def write (a : Attribute) : List Char := a.lead ++ a.body

/-- The characters of attributes. -/
def writeAll (as : List Attribute) : List Char := as.flatMap write

/-- An attribute as it may be written. Its value does not contain its quote, starts no tag, and
declares nothing. -/
structure Fits (a : Attribute) : Prop where
  apart : a.lead ≠ []
  lead : ∀ c ∈ a.lead, Text.isSpacing c = true
  ne : a.name ≠ []
  name : ∀ c ∈ a.name, isAttributeChar c = true
  before : ∀ c ∈ a.before, Text.isSpacing c = true
  after : ∀ c ∈ a.after, Text.isSpacing c = true
  quote : a.quote = '"' ∨ a.quote = '\''
  closed : a.quote ∉ a.value
  noTag : '<' ∉ a.value
  undeclaring : Undeclaring a.value

variable {a : Attribute} {as : List Attribute}

theorem write_append (a : Attribute) (rest : List Char) :
    a.write ++ rest = a.lead ++ (a.name ++ (a.before ++
      '=' :: (a.after ++ a.quote :: (a.value ++ a.quote :: rest)))) := by
  simp [write, body]

/-! ### Quotes -/

theorem tagBody?_quoted {q : Char} {v : List Char} (hv : q ∉ v) (t : List Char) :
    tagBody? (some q) (v ++ q :: t) = (tagBody? none t).map fun body => v ++ q :: body := by
  induction v with
  | nil => simp [tagBody?]
  | cons c v ih =>
      obtain ⟨hc, hv⟩ := not_or.mp (mt List.mem_cons.mpr hv)
      rw [List.cons_append, tagBody?, if_neg (Ne.symm hc), ih hv, Option.map_map]
      rfl

theorem plain_of_spacing {s : List Char} (h : ∀ c ∈ s, Text.isSpacing c = true) :
    ∀ c ∈ s, c ≠ '>' ∧ c ≠ '"' ∧ c ≠ '\'' := by
  intro c hc
  refine ⟨?_, ?_, ?_⟩ <;>
  · rintro rfl
    cases h _ hc

/-- An attribute closes the quotes that it opens. -/
theorem Fits.tagBody? (h : a.Fits) : Xml.tagBody? none (a.write ++ ['>']) = some a.write := by
  have hname : ∀ c ∈ a.name, c ≠ '>' ∧ c ≠ '"' ∧ c ≠ '\'' := by
    intro c hc
    obtain ⟨-, -, hgt, -, hquote, hquote'⟩ := isAttributeChar_iff.mp (h.name c hc)
    exact ⟨hgt, hquote, hquote'⟩
  have hgt : a.quote ≠ '>' := by rcases h.quote with hq | hq <;> rw [hq] <;> decide
  have hvalue : Xml.tagBody? none (a.quote :: (a.value ++ a.quote :: ['>'])) =
      some (a.quote :: (a.value ++ [a.quote])) := by
    rw [Xml.tagBody?, if_neg hgt, if_pos h.quote, tagBody?_quoted h.closed]
    rfl
  rw [write_append, tagBody?_append (tagBody?_plain (plain_of_spacing h.lead)),
    tagBody?_append (tagBody?_plain hname),
    tagBody?_append (tagBody?_plain (plain_of_spacing h.before)), Xml.tagBody?,
    if_neg (by decide), if_neg (by decide),
    tagBody?_append (tagBody?_plain (plain_of_spacing h.after)), hvalue]
  simp [write, body]

theorem tagBody?_writeAll (h : ∀ a ∈ as, a.Fits) (t : List Char) :
    Xml.tagBody? none (writeAll as ++ t) = (Xml.tagBody? none t).map (writeAll as ++ ·) := by
  induction as with
  | nil => simp [writeAll]
  | cons a as ih =>
      obtain ⟨ha, has⟩ := List.forall_mem_cons.mp h
      rw [writeAll, List.flatMap_cons, List.append_assoc, tagBody?_append ha.tagBody?, ← writeAll,
        ih has, Option.map_map]
      congr 1
      funext body
      exact (List.append_assoc ..).symm

/-- Attributes end with a quote, or with the blanks after them. -/
theorem getLast?_writeAll (h : ∀ a ∈ as, a.Fits) {tail : List Char}
    (htail : ∀ c ∈ tail, Text.isSpacing c = true) {c : Char}
    (hc : (writeAll as ++ tail).getLast? = some c) :
    Text.isSpacing c = true ∨ c = '"' ∨ c = '\'' := by
  rw [List.getLast?_append] at hc
  cases ht : tail.getLast? with
  | some d =>
      rw [ht, Option.some_or] at hc
      exact .inl (Option.some.inj hc ▸ htail d (List.mem_of_getLast? ht))
  | none =>
      rw [ht, Option.none_or] at hc
      rcases List.eq_nil_or_concat as with rfl | ⟨as', a, rfl⟩
      · cases hc
      · rw [List.concat_eq_append] at h hc
        have hend : writeAll (as' ++ [a]) = writeAll as' ++ a.lead ++ a.name ++ a.before ++
            ['='] ++ a.after ++ [a.quote] ++ a.value ++ [a.quote] := by
          simp [writeAll, write, body]
        rw [hend, List.getLast?_concat] at hc
        exact .inr (Option.some.inj hc ▸ (h a (by simp)).quote)

theorem enclosed_writeAll (h : ∀ a ∈ as, a.Fits) {tail : List Char}
    (htail : ∀ c ∈ tail, Text.isSpacing c = true) : Enclosed (writeAll as ++ tail) where
  apart := by
    intro c hc
    cases as with
    | nil => exact htail c (List.mem_of_head? hc)
    | cons a as =>
        have ha := h a List.mem_cons_self
        obtain ⟨d, lead, hlead⟩ := List.exists_cons_of_ne_nil ha.apart
        rw [writeAll, List.flatMap_cons, write, hlead] at hc
        rw [← Option.some.inj hc]
        exact ha.lead d (hlead ▸ List.mem_cons_self)
  closed := by
    rw [List.append_assoc, tagBody?_writeAll h, tagBody?_plain (plain_of_spacing htail)]
    rfl
  noSlash := by
    intro hlast
    rcases getLast?_writeAll h htail hlast with hslash | hslash | hslash <;> cases hslash

/-! ### Names -/

theorem not_isSpacing_of_not_isBlank {c : Char} (h : Text.isBlank c = false) :
    Text.isSpacing c = false := by
  rw [Bool.eq_false_iff]
  intro hc
  rw [isBlank_of_isSpacing hc] at h
  cases h

theorem skipBlanks_append {s t : List Char} (hs : ∀ c ∈ s, Text.isSpacing c = true)
    (ht : ∀ c, t.head? = some c → Text.isSpacing c = false) : skipBlanks (s ++ t) = t :=
  dropWhile_append_stop hs ht

/-- What comes after the name of an attribute is read to its last quote. -/
theorem Fits.afterName? (h : a.Fits) (rest : List Char) :
    afterName? (a.before ++ '=' :: (a.after ++ a.quote :: (a.value ++ a.quote :: rest))) =
      some rest := by
  have hquote : Text.isSpacing a.quote = false := by
    rcases h.quote with hq | hq <;> rw [hq] <;> decide
  have hequals : skipBlanks (a.before ++ '=' :: (a.after ++ a.quote ::
      (a.value ++ a.quote :: rest))) =
        '=' :: (a.after ++ a.quote :: (a.value ++ a.quote :: rest)) :=
    skipBlanks_append h.before fun c hc => Option.some.inj hc ▸ rfl
  have hafter : skipBlanks (a.after ++ a.quote :: (a.value ++ a.quote :: rest)) =
      a.quote :: (a.value ++ a.quote :: rest) :=
    skipBlanks_append h.after fun c hc => Option.some.inj hc ▸ hquote
  have hvalue : (a.value ++ a.quote :: rest).dropWhile (· ≠ a.quote) = a.quote :: rest :=
    dropWhile_append_stop (fun c hc => decide_eq_true fun he => h.closed (he ▸ hc))
      fun c hc => by simp [Option.some.inj hc]
  simp only [Xml.afterName?, hequals, quotedValue?, hafter, h.quote, if_true, hvalue]

/-- Reading one attribute asks only whether its name has been there before. -/
theorem Fits.attributesFit (h : a.Fits) (names : List (List Char)) (rest : List Char) :
    attributesFit names (a.write ++ rest) =
      (!names.contains a.name && attributesFit (a.name :: names) rest) := by
  obtain ⟨c, name, hname⟩ := List.exists_cons_of_ne_nil h.ne
  have hchars : ∀ d ∈ name, inName d = true := by
    intro d hd
    obtain ⟨hblank, -, -, hequals, -⟩ :=
      isAttributeChar_iff.mp (h.name d (hname ▸ List.mem_cons_of_mem c hd))
    simp [inName, hequals, not_isSpacing_of_not_isBlank hblank]
  have hc : Text.isSpacing c = false :=
    not_isSpacing_of_not_isBlank (isAttributeChar_iff.mp
      (h.name c (hname ▸ List.mem_cons_self))).1
  have hstop : ∀ d, (a.before ++ '=' :: (a.after ++ a.quote ::
      (a.value ++ a.quote :: rest))).head? = some d → inName d = false := by
    intro d hd
    cases hbefore : a.before with
    | nil =>
        rw [hbefore] at hd
        rw [← Option.some.inj hd]
        rfl
    | cons b before =>
        have hb := h.before b (hbefore ▸ List.mem_cons_self)
        rw [hbefore] at hd
        rw [← Option.some.inj hd, inName, hb]
        simp
  have hskip := skipBlanks_append (s := a.lead) (t := c :: (name ++ (a.before ++ '=' ::
    (a.after ++ a.quote :: (a.value ++ a.quote :: rest))))) h.lead
    fun d hd => Option.some.inj hd ▸ hc
  rw [write_append, hname, List.cons_append, Xml.attributesFit]
  split
  · next hnil =>
    rw [hskip] at hnil
    cases hnil
  · next d s hs =>
    obtain ⟨rfl, rfl⟩ := List.cons.inj (hskip.symm.trans hs)
    have hread := h.afterName? rest
    rw [← dropWhile_append_stop hchars hstop] at hread
    split
    · next hnone =>
      rw [hread] at hnone
      cases hnone
    · next rest' hsome =>
      obtain rfl := Option.some.inj (hread.symm.trans hsome)
      rw [takeWhile_append_stop hchars hstop]

theorem attributesFit_writeAll (h : ∀ a ∈ as, a.Fits) {tail : List Char}
    (htail : ∀ c ∈ tail, Text.isSpacing c = true) (names : List (List Char)) :
    Xml.attributesFit names (writeAll as ++ tail) = true ↔
      (∀ a ∈ as, a.name ∉ names) ∧ as.Pairwise fun a b => a.name ≠ b.name := by
  induction as generalizing names with
  | nil =>
      have hnil : Xml.attributesFit names tail = true := by
        rw [Xml.attributesFit]
        split
        · rfl
        · next hs =>
          rw [Outline.skipBlanks_eq_nil htail] at hs
          cases hs
      simp [writeAll, hnil]
  | cons a as ih =>
      obtain ⟨ha, has⟩ := List.forall_mem_cons.mp h
      rw [writeAll, List.flatMap_cons, List.append_assoc, ha.attributesFit, ← writeAll,
        Bool.and_eq_true, ih has, List.forall_mem_cons, List.pairwise_cons]
      simp only [Bool.not_eq_true', List.contains_eq_mem, decide_eq_false_iff_not, List.mem_cons,
        not_or, forall_and]
      constructor
      · rintro ⟨hname, ⟨hne, hnames⟩, hrest⟩
        exact ⟨⟨hname, hnames⟩, fun b hb => Ne.symm (hne b hb), hrest⟩
      · rintro ⟨⟨hname, hnames⟩, hne, hrest⟩
        exact ⟨hname, ⟨fun b hb => Ne.symm (hne b hb), hnames⟩, hrest⟩

/-- Attributes that are written are well formed if their names are distinct. -/
theorem wellFormed_writeAll (h : ∀ a ∈ as, a.Fits) {tail : List Char}
    (htail : ∀ c ∈ tail, Text.isSpacing c = true) :
    wellFormed (writeAll as ++ tail) = true ↔ as.Pairwise fun a b => a.name ≠ b.name := by
  rw [wellFormed, attributesFit_writeAll h htail]
  exact and_iff_right fun a _ => List.not_mem_nil

end Attribute

/-! ## Tags -/

/-- What a tag does, and its attributes. -/
inductive Form where
  | opening (attributes : List Attribute)
  | empty (attributes : List Attribute)
  | closing

namespace Form

/-- The attributes of a tag. -/
def attributes : Form → List Attribute
  | .opening as => as
  | .empty as => as
  | .closing => []

/-- The same with other attributes. -/
def mapAttributes (f : List Attribute → List Attribute) : Form → Form
  | .opening as => .opening (f as)
  | .empty as => .empty (f as)
  | .closing => .closing

/-- What stands between the bracket and the name. -/
def front : Form → List Char
  | .closing => ['/']
  | _ => []

/-- The end of a tag. -/
def back : Form → List Char
  | .empty _ => ['/', '>']
  | _ => ['>']

end Form

/-- A tag as it is written: what it does, its name, and the blanks at its end. -/
structure Tag where
  form : Form
  name : List Char
  tail : List Char

namespace Tag

/-- The characters of a tag. -/
def write (t : Tag) : List Char :=
  '<' :: (t.form.front ++ (t.name ++ (Attribute.writeAll t.form.attributes ++
    (t.tail ++ t.form.back))))

/-- The characters of a tag between its name and its end. -/
def attributes (t : Tag) : List Char := Attribute.writeAll t.form.attributes ++ t.tail

/-- The token of a tag. -/
def token (t : Tag) : Token :=
  match t.form with
  | .opening _ => .opening t.name t.attributes
  | .empty _ => .empty t.name t.attributes
  | .closing => .closing t.name

/-- A tag with another name. -/
def rename (f : List Char → List Char) (t : Tag) : Tag := { t with name := f t.name }

/-- A tag with other attributes. -/
def mapAttributes (f : List Attribute → List Attribute) (t : Tag) : Tag :=
  { t with form := t.form.mapAttributes f }

/-- A tag that can be cut: any name, attributes as they may be written, and blanks at the end. -/
structure Cut (t : Tag) : Prop where
  name : TagName t.name
  attributes : ∀ a ∈ t.form.attributes, a.Fits
  tail : ∀ c ∈ t.tail, Text.isSpacing c = true

/-- The blanks at the end of a closing tag do not belong to its name. -/
theorem closingName_append {name tail : List Char} (hn : TagName name)
    (htail : ∀ c ∈ tail, Text.isSpacing c = true) : closingName (name ++ tail) = name := by
  have hstop : ∀ c ∈ name, Text.isSpacing c = false :=
    fun c hc => (isTagChar_iff.mp (hn.chars c hc)).1
  obtain ⟨c, hc⟩ := List.exists_mem_of_ne_nil name hn.ne
  have hall : ¬ (name ++ tail).all Text.isSpacing = true := by
    intro h
    have hspacing := List.all_eq_true.mp h c (List.mem_append_left tail hc)
    rw [hstop c hc] at hspacing
    cases hspacing
  have hdrop : (tail.reverse ++ name.reverse).dropWhile Text.isSpacing = name.reverse :=
    dropWhile_append_stop (fun d hd => htail d (List.mem_reverse.mp hd))
      fun d hd => hstop d (List.mem_reverse.mp (List.mem_of_head? hd))
  rw [closingName, if_neg hall, List.reverse_append, hdrop, List.reverse_reverse]

/-- A tag is cut as it was written. -/
theorem tokens_write {t : Tag} (h : t.Cut) (rest : List Char) :
    tokens (t.write ++ rest) = (tokens rest).cons ⟨t.token, t.write⟩ := by
  obtain ⟨form, name, tail⟩ := t
  have henclosed := Attribute.enclosed_writeAll h.attributes h.tail
  cases form with
  | opening as =>
      have hmarkup := markup?_openBody h.name henclosed rest
      have hread := tokens_markup (by simp [Outline.openBody]) hmarkup
      simpa [write, token, attributes, Form.front, Form.back, Form.attributes, Outline.openBody]
        using hread
  | empty as =>
      have hmarkup := markup?_emptyBody h.name henclosed rest
      have hread := tokens_markup (by simp [Outline.emptyBody]) hmarkup
      simpa [write, token, attributes, Form.front, Form.back, Form.attributes, Outline.emptyBody]
        using hread
  | closing =>
      have hbody : '>' ∉ name ++ tail := by
        intro hc
        rcases List.mem_append.mp hc with hc | hc
        · exact h.name.not_mem (c := '>') rfl hc
        · cases h.tail _ hc
      have hmarkup := markup?_closeBody hbody rest
      rw [closingName_append h.name h.tail] at hmarkup
      have hread := tokens_markup (List.cons_ne_nil _ _) hmarkup
      simpa [write, token, Form.front, Form.back, Form.attributes, Attribute.writeAll,
        Outline.closeBody] using hread

end Tag

/-! ## Documents -/

/-- A part of a document: a tag, or the text up to the next tag. -/
inductive Part where
  | tag (t : Tag)
  | text (s : List Char)

namespace Part

/-- The characters of a part. -/
def write : Part → List Char
  | .tag t => t.write
  | .text s => s

/-- The characters of parts. -/
def writeAll (ps : List Part) : List Char := ps.flatMap write

/-- The lexeme of a part. -/
def lexeme : Part → Lexeme
  | .tag t => ⟨t.token, t.write⟩
  | .text s => ⟨.text s, s⟩

/-- Whether a part is a tag. -/
def isTag : Part → Bool
  | .tag _ => true
  | .text _ => false

/-- A part with another name. -/
def rename (f : List Char → List Char) : Part → Part
  | .tag t => .tag (t.rename f)
  | .text s => .text s

/-- A part with other attributes. -/
def mapAttributes (f : List Attribute → List Attribute) : Part → Part
  | .tag t => .tag (t.mapAttributes f)
  | .text s => .text s

theorem mapAttributes_id (q : Part) : q.mapAttributes id = q := by
  cases q with
  | text s => rfl
  | tag t =>
      obtain ⟨form, name, tail⟩ := t
      cases form <;> rfl

theorem mapAttributes_mapAttributes (f g : List Attribute → List Attribute) (q : Part) :
    (q.mapAttributes f).mapAttributes g = q.mapAttributes (g ∘ f) := by
  cases q with
  | text s => rfl
  | tag t =>
      obtain ⟨form, name, tail⟩ := t
      cases form <;> rfl

/-- A part that can be cut. -/
def Cut : Part → Prop
  | .tag t => t.Cut
  | .text s => s ≠ [] ∧ '<' ∉ s

/-- Parts of which no two texts follow one another. -/
def Apart (ps : List Part) : Prop := ps.IsChain fun p q => p.isTag = true ∨ q.isTag = true

theorem raw_lexeme (p : Part) : p.lexeme.raw = p.write := by
  cases p <;> rfl

theorem rawOf_map_lexeme (ps : List Part) : rawOf (ps.map lexeme) = writeAll ps := by
  rw [rawOf, List.flatMap_map]
  exact List.flatMap_congr fun p _ => p.raw_lexeme

theorem writeAll_append (ps qs : List Part) : writeAll (ps ++ qs) = writeAll ps ++ writeAll qs :=
  List.flatMap_append

theorem writeAll_concat (ps : List Part) (q : Part) :
    writeAll (ps ++ [q]) = writeAll ps ++ q.write := by
  rw [writeAll_append, writeAll, writeAll, List.flatMap_singleton]

theorem eq_opening {q : Part} {name attributes : List Char}
    (h : q.lexeme.token = .opening name attributes) :
    ∃ as tail, q = .tag ⟨.opening as, name, tail⟩ := by
  match q, h with
  | .tag ⟨.opening as, _, tail⟩, rfl => exact ⟨as, tail, rfl⟩

theorem eq_empty {q : Part} {name attributes : List Char}
    (h : q.lexeme.token = .empty name attributes) :
    ∃ as tail, q = .tag ⟨.empty as, name, tail⟩ := by
  match q, h with
  | .tag ⟨.empty as, _, tail⟩, rfl => exact ⟨as, tail, rfl⟩

theorem eq_closing {q : Part} {name : List Char} (h : q.lexeme.token = .closing name) :
    ∃ tail, q = .tag ⟨.closing, name, tail⟩ := by
  match q, h with
  | .tag ⟨.closing, _, tail⟩, rfl => exact ⟨tail, rfl⟩

/-- After a text there is a tag, or what comes after the parts. -/
theorem head?_append_of_text {s : List Char} {ps : List Part} (h : Apart (.text s :: ps))
    {rest : List Char} (hrest : ∀ c, rest.head? = some c → c = '<') :
    ∀ c, (writeAll ps ++ rest).head? = some c → c = '<' := by
  intro c hc
  cases ps with
  | nil => exact hrest c hc
  | cons q ps =>
      cases q with
      | tag t => exact (Option.some.inj hc).symm
      | text s' =>
          rcases h.rel_head? rfl with htag | htag <;> cases htag

/-- Parts are cut as they were written, whatever comes after them, if it starts with a bracket. -/
theorem tokens_writeAll_append {ps : List Part} (hcut : ∀ p ∈ ps, p.Cut) (h : Apart ps)
    {rest : List Char} (hrest : ∀ c, rest.head? = some c → c = '<') :
    tokens (writeAll ps ++ rest) = (tokens rest).prepend (ps.map lexeme) := by
  induction ps with
  | nil => rfl
  | cons p ps ih =>
      obtain ⟨hp, hps⟩ := List.forall_mem_cons.mp hcut
      rw [writeAll, List.flatMap_cons, ← writeAll, List.append_assoc]
      cases p with
      | tag t =>
          rw [write, Tag.tokens_write hp, ih hps h.tail]
          rfl
      | text s =>
          rw [write, tokens_text hp.2 (head?_append_of_text h hrest), ih hps h.tail,
            Outline.textLexemes, if_neg hp.1]
          rfl

/-- A document is cut into its parts. -/
theorem tokens_writeAll {ps : List Part} (hcut : ∀ p ∈ ps, p.Cut) (h : Apart ps) :
    tokens (writeAll ps) = ⟨ps.map lexeme, true⟩ := by
  have htokens : tokens (writeAll ps ++ []) = (tokens []).prepend (ps.map lexeme) :=
    tokens_writeAll_append hcut h fun c hc => by cases hc
  rw [List.append_nil, tokens] at htokens
  rw [htokens, Scan.prepend, List.append_nil]

end Part

end Holdings.Xml
