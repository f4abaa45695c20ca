import Holdings.Json.Numeral
import Holdings.Text.Blank
import Holdings.Text.Utf8
/-!
# JSON tokens

A text cut into punctuation and leaves, which are strings and words: numerals and the three
names. A leaf can be read, which gives its value, or be passed over, which is more lenient: it
does not ask whether a number is in range or whether the halves of an escaped pair belong
together. A leaf that cannot even be passed over is the last token.
-/

namespace Holdings.Json

/-- What a leaf holds. -/
inductive Scalar where
  | null
  | bool (b : Bool)
  | number (n : Number)
  | string (s : String)

/-- A leaf: what comes of reading it, and the fault, if any, of passing over it. -/
structure Leaf where
  read : Except Fault Scalar
  skip : Option Fault

/-- A leaf that can neither be read nor passed over. -/
def Leaf.broken (f : Fault) : Leaf := ⟨.error f, some f⟩

/-- A token. -/
inductive Token where
  | openArray
  | closeArray
  | openObject
  | closeObject
  | comma
  | colon
  | string (l : Leaf)
  | word (l : Leaf)

/-! ## Strings -/

/-- The number of four hexadecimal digits. If four bytes are not left, the text has ended. -/
def hexUnit (s : List Char) : Except Fault Nat :=
  match (s.take 4).mapM Text.hexValue? with
  | some [a, b, c, d] => .ok (((a * 16 + b) * 16 + c) * 16 + d)
  | _ => .error (if Text.Utf8.size s < 4 then .endOfText else .malformed)

/-- A unit that starts a pair. -/
def isHigh (n : Nat) : Bool := 0xD800 ≤ n && n ≤ 0xDBFF

/-- A unit that ends a pair. -/
def isLow (n : Nat) : Bool := 0xDC00 ≤ n && n ≤ 0xDFFF

/-- The unit that ends a pair, escaped at the start of a text. -/
def lowUnit : List Char → Except Fault Nat
  | [] => .error .endOfText
  | ['\\'] => .error .endOfText
  | '\\' :: 'u' :: s => do
    let n ← hexUnit s
    if isLow n then .ok n else .error .malformed
  | _ => .error .malformed

/-- What one character of a string stands for: a character of the content, or half of a pair on
its own, which can only be passed over. The number says how many characters after the first
belong to it. -/
inductive Piece where
  | char (c : Char) (more : Nat)
  | lone (f : Fault) (more : Nat)
  | broken (f : Fault)

/-- The piece that an escaped unit makes, when the text goes on with `s` after its four digits.
The backslash, the letter and the digits are six characters. -/
def unitPiece (n : Nat) (s : List Char) : Piece :=
  if isHigh n then
    match lowUnit s with
    | .ok low => .char (Char.ofNat (0x10000 + (n - 0xD800) * 0x400 + (low - 0xDC00))) 11
    | .error f => .lone f 5
  else if isLow n then .lone .malformed 5
  else .char (Char.ofNat n) 5

/-- The character that a letter after a backslash stands for. -/
def escaped? (c : Char) : Option Char :=
  if c = '"' ∨ c = '\\' ∨ c = '/' then some c
  else if c = 'b' then some '\x08'
  else if c = 'f' then some '\x0c'
  else if c = 'n' then some '\n'
  else if c = 'r' then some '\r'
  else if c = 't' then some '\t'
  else none

/-- The piece at a character other than the closing quote, when the text goes on with `s`. -/
def pieceAt (c : Char) (s : List Char) : Piece :=
  if c = '\\' then
    match s with
    | [] => .broken .endOfText
    | e :: s =>
      if e = 'u' then
        match hexUnit s with
        | .ok n => unitPiece n (s.drop 4)
        | .error f => .broken f
      else match escaped? e with
        | some d => .char d 1
        | none => .broken .malformed
  else if c.toNat < 0x20 then .broken .malformed
  else .char c 0

/-- A string after its opening quote: its content, and the text after the closing quote. -/
structure Quoted where
  content : Except Fault (List Char)
  rest : Except Fault (List Char)

/-- The string that a text goes on with. -/
def quoted : List Char → Quoted
  | [] => ⟨.error .endOfText, .error .endOfText⟩
  | c :: s =>
    if c = '"' then ⟨.ok [], .ok s⟩
    else match pieceAt c s with
      | .char d n =>
        let q := quoted (s.drop n)
        ⟨q.content.map (d :: ·), q.rest⟩
      | .lone f n => ⟨.error f, (quoted (s.drop n)).rest⟩
      | .broken f => ⟨.error f, .error f⟩
termination_by s => s.length
decreasing_by all_goals exact Nat.lt_succ_of_le (by simp)

/-! ## Leaves -/

/-- A leaf and the text after it; there is no text after a leaf that cannot be passed over. -/
structure LeafScan where
  leaf : Leaf
  rest : List Char

/-- The leaf that a string makes. -/
def stringLeaf (s : List Char) : LeafScan :=
  let q := quoted s
  let read := q.content.map fun cs => Scalar.string (String.ofList cs)
  match q.rest with
  | .ok rest => ⟨⟨read, none⟩, rest⟩
  | .error f => ⟨⟨read, some f⟩, []⟩

/-- The leaf that a numeral makes. Where it ends too early, reading takes this for the end of the
text, and passing over takes it for a numeral that is not well formed. -/
def numberLeaf (s : List Char) : LeafScan :=
  match Numeral.parse .endOfText s with
  | .ok (x, rest) =>
    match x.value? with
    | some n => ⟨⟨.ok (.number n), none⟩, rest⟩
    | none => ⟨⟨.error .malformed, none⟩, rest⟩
  | .error f => ⟨⟨.error f, some .malformed⟩, []⟩

/-- The leaf that a name makes, of which the rest is to be `word`. -/
def nameLeaf (value : Scalar) : List Char → List Char → LeafScan
  | [], s => ⟨⟨.ok value, none⟩, s⟩
  | _ :: _, [] => ⟨.broken .endOfText, []⟩
  | c :: word, c' :: s => if c = c' then nameLeaf value word s else ⟨.broken .malformed, []⟩

/-- The word at a character. -/
def wordAt (c : Char) (s : List Char) : LeafScan :=
  if c = '-' ∨ c.isDigit then numberLeaf (c :: s)
  else if c = 'n' then nameLeaf .null "ull".toList s
  else if c = 't' then nameLeaf (.bool true) "rue".toList s
  else if c = 'f' then nameLeaf (.bool false) "alse".toList s
  else ⟨.broken .malformed, []⟩

/-- The punctuation that a character is. -/
def punctuation? (c : Char) : Option Token :=
  if c = '[' then some .openArray
  else if c = ']' then some .closeArray
  else if c = '{' then some .openObject
  else if c = '}' then some .closeObject
  else if c = ',' then some .comma
  else if c = ':' then some .colon
  else none

/-- The token that a leaf is, and the tokens after it if it can be passed over. -/
def Leaf.andThen (l : Leaf) (token : Leaf → Token) (rest : List Token) : List Token :=
  token l :: if l.skip.isSome then [] else rest

/-- The tokens of a text. A leaf takes at least its first character. -/
def tokens : List Char → List Token
  | [] => []
  | c :: s =>
    if Text.isSpacing c then tokens s
    else match punctuation? c with
      | some t => t :: tokens s
      | none =>
        let l := if c = '"' then stringLeaf s else wordAt c s
        l.leaf.andThen (if c = '"' then .string else .word)
          (tokens (s.drop (s.length - l.rest.length)))
termination_by s => s.length
decreasing_by all_goals exact Nat.lt_succ_of_le (by simp)

end Holdings.Json
