import Holdings.Xml.Token
/-!
# Attributes

The attributes of a tag are not used, but they have to be well formed: a name, an equals sign
and a value in quotes of either kind, with blanks between these parts or not, and no name
twice.
-/

namespace Holdings.Xml

/-- A text without the blanks in front of it. -/
def skipBlanks (s : List Char) : List Char := s.dropWhile Text.isSpacing

/-- The rest after a quoted value, with blanks before it. -/
def quotedValue? (s : List Char) : Option (List Char) :=
  match skipBlanks s with
  | q :: s =>
    if q = '"' ∨ q = '\'' then
      match s.dropWhile (· ≠ q) with
      | [] => none
      | _ :: rest => some rest
    else none
  | [] => none

/-- The rest of an attribute after its name. -/
def afterName? (s : List Char) : Option (List Char) :=
  match skipBlanks s with
  | '=' :: s => quotedValue? s
  | _ => none

/-- Whether a character may stand in a name after its first one. -/
def inName (c : Char) : Bool := c ≠ '=' && !Text.isSpacing c

theorem length_skipBlanks_le (s : List Char) : (skipBlanks s).length ≤ s.length :=
  (List.dropWhile_sublist _).length_le

theorem length_le_of_quotedValue? {s rest : List Char} (h : quotedValue? s = some rest) :
    rest.length ≤ s.length := by
  unfold quotedValue? at h
  have hs := length_skipBlanks_le s
  split at h
  · next q t ht =>
    split at h
    · split at h
      · cases h
      · next c r hr =>
        cases h
        have hd := (List.dropWhile_sublist (l := t) (fun c => decide (c ≠ q))).length_le
        rw [hr] at hd
        rw [ht] at hs
        simp only [List.length_cons] at hd hs
        omega
    · cases h
  · cases h

theorem length_le_of_afterName? {s rest : List Char} (h : afterName? s = some rest) :
    rest.length ≤ s.length := by
  unfold afterName? at h
  have hs := length_skipBlanks_le s
  split at h
  · next t ht =>
    rw [ht] at hs
    exact Nat.le_trans (length_le_of_quotedValue? h) (Nat.le_of_succ_le hs)
  · cases h

/-- Whether attributes are well formed and have other names than those in `names`. -/
def attributesFit (names : List (List Char)) (s : List Char) : Bool :=
  match _hs : skipBlanks s with
  | [] => true
  | c :: s' =>
    let name := c :: s'.takeWhile inName
    match _hr : afterName? (s'.dropWhile inName) with
    | none => false
    | some rest => !names.contains name && attributesFit (name :: names) rest
termination_by s.length
decreasing_by
  have h₁ := length_skipBlanks_le s
  have h₂ := length_le_of_afterName? _hr
  have h₃ := (List.dropWhile_sublist (l := s') inName).length_le
  rw [_hs, List.length_cons] at h₁
  omega

/-- Whether the attributes of a tag are well formed. -/
def wellFormed (attributes : List Char) : Bool := attributesFit [] attributes

end Holdings.Xml
