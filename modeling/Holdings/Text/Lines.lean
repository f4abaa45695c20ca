/-!
# Lines

The lines of a text: a line feed ends a line, and a carriage return right before that line
feed belongs to the ending. Text after the last line feed is one more line, unless it is empty.
-/

namespace Holdings.Text

/-- A line that a line feed ended, without the carriage return of that ending. -/
def dropReturn (line : List Char) : List Char :=
  if line.getLast? = some '\r' then line.dropLast else line

/-- The lines of `s` after the characters `line` of an open line, which come last first. -/
def linesFrom (line : List Char) : List Char → List (List Char)
  | [] => if line.isEmpty then [] else [line.reverse]
  | '\n' :: s => dropReturn line.reverse :: linesFrom [] s
  | c :: s => linesFrom (c :: line) s

/-- The lines of a text, without their endings. -/
def lines (s : List Char) : List (List Char) :=
  linesFrom [] s

end Holdings.Text
