import Holdings.Xml.Attributes
import Holdings.Xml.Element
import Holdings.Xml.Reference
/-!
# The content of an element

An element read into its tree. Text and character data that only comments and instructions
separate are one text. Blanks at the start and at the end of such a text do not count, save
within character data, and a text of nothing but blanks is no text at all. A text that holds a
reference without a meaning is kept as unreadable: it does harm only where it is looked at.
-/

namespace Holdings.Xml

/-- What a fragment consists of after its texts have been put together. -/
inductive Event where
  | opening (name attributes : List Char)
  | closing
  | text (content : Option (List Char))

/-- A piece of a text: as written, or taken from character data. -/
structure Piece where
  verbatim : Bool
  content : List Char

/-- The characters that a piece stands for. -/
def Piece.resolve? (p : Piece) : Option (List Char) :=
  if p.verbatim then some p.content else Xml.resolve? p.content

/-- Pieces without the blanks before the first of them that is not blank as a whole. -/
def trimFirst : List Piece → List Piece
  | [] => []
  | p :: ps =>
    if p.verbatim then p :: ps
    else match skipBlanks p.content with
      | [] => trimFirst ps
      | content => ⟨false, content⟩ :: ps

/-- Pieces without the blanks at the end of the last one. -/
def trimLast : List Piece → List Piece
  | [] => []
  | [p] => [if p.verbatim then p else ⟨false, (skipBlanks p.content.reverse).reverse⟩]
  | p :: ps => p :: trimLast ps

/-- The characters of pieces one after the other. -/
def resolveAll? : List Piece → Option (List Char)
  | [] => some []
  | p :: ps => do
    let s ← p.resolve?
    let rest ← resolveAll? ps
    some (s ++ rest)

/-- The text that pieces in reverse order make, if it is not blank. -/
def textOf (pieces : List Piece) : List Event :=
  match trimFirst pieces.reverse with
  | [] => []
  | ps => [.text (resolveAll? (trimLast ps))]

/-- The events of lexemes, after the pieces of a text that has begun, the latest first. -/
def eventsFrom (pieces : List Piece) : List Lexeme → List Event
  | [] => textOf pieces
  | l :: ls =>
    match l.token with
    | .text s => eventsFrom (⟨false, s⟩ :: pieces) ls
    | .characters s => eventsFrom (⟨true, s⟩ :: pieces) ls
    | .comment => eventsFrom pieces ls
    | .instruction => eventsFrom pieces ls
    | .opening name attributes => textOf pieces ++ .opening name attributes :: eventsFrom [] ls
    | .empty name attributes =>
      textOf pieces ++ .opening name attributes :: .closing :: eventsFrom [] ls
    | .closing _ => textOf pieces ++ .closing :: eventsFrom [] ls
    | .documentType => textOf pieces ++ eventsFrom [] ls

/-- The tree of an element. A text that cannot be read has no content. -/
inductive Node where
  | element (name attributes : List Char) (children : List Node)
  | text (content : Option (List Char))

/-- An element that has been opened, with its children so far, the latest first. -/
structure Frame where
  name : List Char
  attributes : List Char
  children : List Node

/-- The element of a frame. -/
def Frame.close (f : Frame) : Node := .element f.name f.attributes f.children.reverse

/-- A frame with one more child. -/
def Frame.add (f : Frame) (n : Node) : Frame := { f with children := n :: f.children }

/-- Reads on in the innermost open element `f`, which lies in `outer`, until the outermost one
is closed. What comes after that is not looked at. -/
def close? (outer : List Frame) (f : Frame) : List Event → Option Node
  | [] => none
  | .opening name attributes :: es => close? (f :: outer) ⟨name, attributes, []⟩ es
  | .text content :: es => close? outer (f.add (.text content)) es
  | .closing :: es =>
    match outer with
    | [] => some f.close
    | g :: outer => close? outer (g.add f.close) es

/-- The element that a fragment starts with. -/
def Node.ofFragment? (s : List Char) : Option Node :=
  match eventsFrom [] (scan (Document.ofChars s).text).lexemes with
  | .opening name attributes :: es => close? [] ⟨name, attributes, []⟩ es
  | _ => none

mutual
/-- Whether every text in a node can be read. -/
def Node.isReadable : Node → Bool
  | .element _ _ children => areReadable children
  | .text content => content.isSome
/-- Whether every text in some nodes can be read. -/
def areReadable : List Node → Bool
  | [] => true
  | n :: ns => n.isReadable && areReadable ns
end

end Holdings.Xml
