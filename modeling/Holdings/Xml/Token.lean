import Holdings.Text.Blank
/-!
# Markup tokens

A document cut into tokens: tags, text, character data, comments, instructions and document
types. The cutting is generous. Names are whatever stands before the first blank, references
are left as they are, and a closing tag or an instruction may lack its bracket at the end of
the document. Every token keeps its characters, and together they are the part of the document
that could be read.

Two things end the reading early: markup that fits no kind of token, and a closing tag that
does not close the tag opened last.
-/

namespace Holdings.Xml

/-- A token. A tag that is empty opens and closes at once. -/
inductive Token where
  | opening (name attributes : List Char)
  | empty (name attributes : List Char)
  | closing (name : List Char)
  | text (content : List Char)
  | characters (content : List Char)
  | comment
  | instruction
  | documentType
deriving DecidableEq

/-- A token with the characters that it was read from. -/
structure Lexeme where
  token : Token
  raw : List Char
deriving DecidableEq

/-- The tokens read from a document, and whether reading came to its end. -/
structure Scan where
  lexemes : List Lexeme
  intact : Bool

/-- A scan with one more lexeme in front. -/
def Scan.cons (l : Lexeme) (s : Scan) : Scan := ⟨l :: s.lexemes, s.intact⟩

/-! ## Single tokens

Each reader gets the characters after the bracket that opens the markup, and answers with the
token and the number of characters that it takes. -/

/-- The characters before the first closing bracket of which they make an end, as `ends` says
of the characters in reverse. -/
def upTo? (ends : List Char → Bool) (before : List Char) : List Char → Option (List Char)
  | [] => none
  | c :: s =>
    if c = '>' && ends before then some before.reverse else upTo? ends (c :: before) s

/-- Whether a text starts with the capitals `start`, small letters taken as capitals. -/
def startsWith (start s : List Char) : Bool :=
  (s.take start.length).map Char.toUpper = start

/-- Ends of a comment: two hyphens, apart from those that begin it. -/
def endsComment : List Char → Bool
  | '-' :: '-' :: before => 3 ≤ before.length
  | _ => false

/-- Ends of character data: two brackets. -/
def endsCharacters : List Char → Bool
  | ']' :: ']' :: _ => true
  | _ => false

/-- Ends of a document type: as many brackets opened as closed. -/
def endsDocumentType (before : List Char) : Bool :=
  before.count '<' = before.count '>'

/-- Markup that starts with an exclamation mark. -/
def declaration? (s : List Char) : Option (Token × Nat) :=
  match s with
  | '!' :: '-' :: _ => do
    let body ← upTo? endsComment [] s
    if body.take 3 = ['!', '-', '-'] then some (.comment, body.length + 1) else none
  | '!' :: '[' :: _ => do
    let body ← upTo? endsCharacters [] s
    if startsWith "![CDATA[".toList body then
      some (.characters ((body.drop 8).dropLast.dropLast), body.length + 1)
    else none
  | '!' :: c :: _ =>
    if c = 'D' ∨ c = 'd' then do
      let body ← upTo? endsDocumentType [] s
      if startsWith "!DOCTYPE".toList body ∧ (body.drop 8).any (fun c => !Text.isSpacing c) then
        some (.documentType, body.length + 1)
      else none
    else none
  | _ => none

/-- The characters up to a closing bracket or the end, and the number of characters taken. -/
def upToBracket (s : List Char) : List Char × Nat :=
  let body := s.takeWhile (· ≠ '>')
  (body, min (body.length + 1) s.length)

/-- The name in a closing tag; blanks after it do not count, unless there is nothing else. -/
def closingName (body : List Char) : List Char :=
  if body.all Text.isSpacing then body else (body.reverse.dropWhile Text.isSpacing).reverse

/-- An instruction stands between question marks. -/
def instruction? (s : List Char) : Option (Token × Nat) :=
  let (body, n) := upToBracket s
  if 2 < body.length ∧ body.getLast? = some '?' then some (.instruction, n) else none

/-- The characters of a tag before its closing bracket; brackets inside of quotes do not count. -/
def tagBody? (quote : Option Char) : List Char → Option (List Char)
  | [] => none
  | c :: s =>
    match quote with
    | some q => (tagBody? (if c = q then none else some q) s).map (c :: ·)
    | none =>
      if c = '>' then some []
      else (tagBody? (if c = '"' ∨ c = '\'' then some c else none) s).map (c :: ·)

/-- A tag that opens an element; a slash at its end makes it empty. -/
def tag? (s : List Char) : Option (Token × Nat) := do
  let body ← tagBody? none s
  let n := body.length + 1
  if body.getLast? = some '/' then
    let inner := body.dropLast
    some (.empty (inner.takeWhile (!Text.isSpacing ·)) (inner.dropWhile (!Text.isSpacing ·)), n)
  else some (.opening (body.takeWhile (!Text.isSpacing ·)) (body.dropWhile (!Text.isSpacing ·)), n)

/-- The markup after an opening bracket. -/
def markup? (s : List Char) : Option (Token × Nat) :=
  match s with
  | '!' :: _ => declaration? s
  | '/' :: rest =>
    let (body, n) := upToBracket rest
    some (.closing (closingName body), n + 1)
  | '?' :: _ => instruction? s
  | _ => tag? s

/-! ## Whole documents -/

/-- The tokens of a document. A bracket that is its last character is passed over. -/
def tokens : List Char → Scan
  | [] => ⟨[], true⟩
  | c :: s =>
    if c = '<' then
      if s = [] then ⟨[], true⟩
      else match markup? s with
        | none => ⟨[], false⟩
        | some (t, n) => (tokens (s.drop n)).cons ⟨t, c :: s.take n⟩
    else
      let rest := s.takeWhile (· ≠ '<')
      (tokens (s.drop rest.length)).cons ⟨.text (c :: rest), c :: rest⟩
termination_by s => s.length
decreasing_by all_goals exact Nat.lt_succ_of_le (by simp)

/-- The lexemes of a scan up to the first closing tag that does not fit. The names of the open
elements are `openNames`, the innermost first. -/
def nested (intact : Bool) (openNames : List (List Char)) : List Lexeme → Scan
  | [] => ⟨[], intact⟩
  | l :: ls =>
    match l.token with
    | .opening name _ => (nested intact (name :: openNames) ls).cons l
    | .closing name =>
      match openNames with
      | [] => ⟨[], false⟩
      | top :: rest => if top = name then (nested intact rest ls).cons l else ⟨[], false⟩
    | _ => (nested intact openNames ls).cons l

/-- The tokens of a document, as far as it can be read and its tags fit. -/
def scan (s : List Char) : Scan :=
  let all := tokens s
  nested all.intact [] all.lexemes

end Holdings.Xml
