/-!
# White space

The characters of the Unicode property `White_Space`, and texts without them at either end.
`trim` is the middle part of a text: what it removes is blank, and neither end of what it
keeps is.
-/

namespace Holdings.Text

/-- The characters of the property `White_Space`: the control characters from tab to carriage
return, the space, NEL, and the separators of the Unicode blocks above. -/
def isBlank (c : Char) : Bool :=
  let n := c.toNat
  (9 ≤ n && n ≤ 13) || n == 0x20 || n == 0x85 || n == 0xA0 || n == 0x1680 ||
    (0x2000 ≤ n && n ≤ 0x200A) || n == 0x2028 || n == 0x2029 || n == 0x202F || n == 0x205F ||
    n == 0x3000

/-- The four blanks that may stand between the parts of a notation: space, tab, carriage return
and line feed. -/
def isSpacing (c : Char) : Bool := c = ' ' || c = '\t' || c = '\r' || c = '\n'

/-- A text without the blank characters before its first other one. -/
def trimStart (s : List Char) : List Char :=
  s.dropWhile isBlank

/-- A text without the blank characters after its last other one. -/
def trimEnd (s : List Char) : List Char :=
  (trimStart s.reverse).reverse

/-- A text without blank characters at either end. -/
def trim (s : List Char) : List Char :=
  trimEnd (trimStart s)

/-- `trim` on strings. -/
def trimmed (s : String) : String :=
  String.ofList (trim s.toList)

@[simp] theorem trim_nil : trim [] = [] := rfl

theorem trim_sublist (s : List Char) : (trim s).Sublist s := by
  have h : (trimEnd (trimStart s)).Sublist (trimStart s) := by
    have hr := (List.dropWhile_sublist isBlank (l := (trimStart s).reverse)).reverse
    rwa [List.reverse_reverse] at hr
  exact h.trans (List.dropWhile_sublist isBlank)

theorem toList_trimmed (s : String) : (trimmed s).toList = trim s.toList := by
  simp [trimmed]

end Holdings.Text
