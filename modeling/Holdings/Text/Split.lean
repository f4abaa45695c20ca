/-!
# Cutting a text

The rest of a text after given characters, and the parts of a text between the places where a
given character stands. There is always at least one part, and joining the parts with the
character gives the text back.
-/

namespace Holdings.Text

/-- The rest of a text after the characters `start`, if it starts with them. -/
def after? : List Char → List Char → Option (List Char)
  | [], s => some s
  | _ :: _, [] => none
  | c :: start, c' :: s => if c = c' then after? start s else none

theorem after?_eq_some_iff {start s rest : List Char} :
    after? start s = some rest ↔ s = start ++ rest := by
  induction start generalizing s with
  | nil => simp [after?]
  | cons c start ih =>
    cases s with
    | nil => simp [after?]
    | cons c' s =>
      rw [after?]
      split
      · next h => simp [ih, h]
      · next h => simp [Ne.symm h]

/-- The parts of a text between the characters equal to `sep`. -/
def split (sep : Char) : List Char → List (List Char)
  | [] => [[]]
  | c :: s =>
    if c = sep then [] :: split sep s
    else match split sep s with
      | [] => [[c]]
      | part :: parts => (c :: part) :: parts

/-- Texts put together with a separator between them. -/
def join (sep : List Char) : List (List Char) → List Char
  | [] => []
  | [part] => part
  | part :: parts => part ++ sep ++ join sep parts

theorem split_ne_nil (sep : Char) (s : List Char) : split sep s ≠ [] := by
  cases s with
  | nil => simp [split]
  | cons c s =>
    rw [split]
    split
    · simp
    · split <;> simp

theorem join_split (sep : Char) (s : List Char) : join [sep] (split sep s) = s := by
  induction s with
  | nil => rfl
  | cons c s ih =>
    rw [split]
    cases h : split sep s with
    | nil => exact absurd h (split_ne_nil sep s)
    | cons part parts =>
      rw [h] at ih
      by_cases hc : c = sep
      · simp [hc, join, ih]
      · cases parts with
        | nil => simpa [hc, join] using ih
        | cons p ps => simpa [hc, join] using ih

end Holdings.Text
