import Holdings.Text.Utf8
import Holdings.Xml.Qualifier
import Holdings.Xml.Token
/-!
# Elements cut out of a document

The elements of one local name, in the order of the document and each as the text that it
spans, so that every element can be read by itself. An element of the name inside of another
one belongs to the outer one.

Positions in a document are counted in bytes, and a byte order mark in front of the document is
not counted. In a document with such a mark every cut therefore comes three bytes early. A cut that
falls inside of a character gives no text, and nothing after it is cut out any more.
-/

namespace Holdings.Xml

/-- A document: its characters, and whether a byte order mark stands in front of them. -/
structure Document where
  marked : Bool
  text : List Char

/-- The mark that may stand in front of a document. -/
def mark : Char := '\uFEFF'

/-- The document that characters make. -/
def Document.ofChars : List Char → Document
  | [] => ⟨false, []⟩
  | c :: s => if c = mark then ⟨true, s⟩ else ⟨false, c :: s⟩

/-- The document that bytes write; broken characters are replaced. -/
def Document.ofBytes (bs : List UInt8) : Document := .ofChars (Text.Utf8.decodeLenient bs)

/-- The fragment at a position whose characters are `raw`. -/
def Document.fragment? (d : Document) (position : Nat) (raw : List Char) : Option (List Char) :=
  if d.marked then
    let bytes := Text.Utf8.encode (mark :: d.text)
    Text.Utf8.decode? ((bytes.drop position).take (Text.Utf8.size raw))
  else some raw

/-- An element of a document: its full name, where it starts, and its characters. -/
structure Element where
  name : List Char
  position : Nat
  raw : List Char

/-- The number of lexemes up to the tag that closes the innermost of `depth + 1` elements. -/
def spanLength? : Nat → List Lexeme → Option Nat
  | _, [] => none
  | depth, l :: ls =>
    match l.token, depth with
    | .closing _, 0 => some 1
    | .closing _, depth + 1 => (spanLength? depth ls).map (· + 1)
    | .opening .., depth => (spanLength? (depth + 1) ls).map (· + 1)
    | _, depth => (spanLength? depth ls).map (· + 1)

/-- The characters of lexemes. -/
def rawOf (ls : List Lexeme) : List Char := ls.flatMap (·.raw)

/-- What a lexeme means in the search for elements: nothing, an element and the number of
lexemes after the first that belong to it, or an element that is never closed. -/
inductive Sight where
  | nothing
  | element (e : Element) (more : Nat)
  | unclosed

/-- What is seen at a lexeme, at a position and with lexemes after it. -/
def sight (wanted : List Char) (position : Nat) (l : Lexeme) (ls : List Lexeme) : Sight :=
  match l.token with
  | .opening name _ =>
    if localName name = wanted then
      match spanLength? 0 ls with
      | none => .unclosed
      | some n => .element ⟨name, position, rawOf (l :: ls.take n)⟩ n
    else .nothing
  | .empty name _ =>
    if localName name = wanted then .element ⟨name, position, l.raw⟩ 0 else .nothing
  | _ => .nothing

/-- The elements of a local name among lexemes that start at a position, and whether all of them
are closed. -/
def elementsFrom (wanted : List Char) (position : Nat) : List Lexeme → List Element × Bool
  | [] => ([], true)
  | l :: ls =>
    match sight wanted position l ls with
    | .nothing => elementsFrom wanted (position + Text.Utf8.size l.raw) ls
    | .element e n =>
      let (es, closed) := elementsFrom wanted (position + Text.Utf8.size e.raw) (ls.drop n)
      (e :: es, closed)
    | .unclosed => ([], false)
termination_by ls => ls.length
decreasing_by
  · exact Nat.lt_succ_self _
  · exact Nat.lt_succ_of_le (by simp)

/-- The elements of a local name in a document, and whether the document could be read up to its
end without one of them being left open. -/
def Document.elements (d : Document) (wanted : List Char) : List Element × Bool :=
  let s := scan d.text
  let (es, closed) := elementsFrom wanted 0 s.lexemes
  (es, closed && s.intact)

/-- The text that an element is read from. -/
def Document.source? (d : Document) (e : Element) : Option (List Char) :=
  (d.fragment? e.position e.raw).map fun s => if isQualified e.name then unqualified s else s

/-- The texts of elements up to the first that cannot be cut out, and whether all of them can. -/
def Document.sources (d : Document) : List Element → List (List Char) × Bool
  | [] => ([], true)
  | e :: es =>
    match d.source? e with
    | some s =>
      let (rest, whole) := d.sources es
      (s :: rest, whole)
    | none => ([], false)

end Holdings.Xml
