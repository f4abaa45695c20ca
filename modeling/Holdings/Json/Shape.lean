import Holdings.Json.Draft
/-!
# Asking a text for a shape

Reading a draft as what is asked for: a string, strings, an integer in bounds, or a structure
with named fields. A part of another kind is a fault that says what was found and what was
expected. The fields of a structure may come in any order; one that comes twice is a fault
before its second value is looked at.
-/

namespace Holdings.Json

/-- What a scalar is found to be. -/
def Scalar.found : Scalar → Found
  | .null => .null
  | .bool b => .bool b
  | .number n => .number n
  | .string s => .string s

/-- What stands in a place; the inside of a container is not looked at. -/
def Draft.found : Draft → Except Fault Found
  | .leaf l => l.read.map Scalar.found
  | .list .. => .ok .sequence
  | .object .. => .ok .map

/-- The fault of a part that is not what is expected. -/
def Draft.mismatch {α : Type} (expected : String) (d : Draft) : Except Fault α := do
  let f ← d.found
  .error (.shape (.invalidType f expected))

/-- A string. -/
def Draft.string (d : Draft) : Except Fault String := do
  match ← d.found with
  | .string s => .ok s
  | f => .error (.shape (.invalidType f "a string"))

/-- An array of strings. -/
def Draft.strings : Draft → Except Fault (List String)
  | .list items ending => do
    let ss ← items.mapM Draft.string
    ending.read
    .ok ss
  | d => d.mismatch "a sequence"

/-- An integer within bounds. -/
def Draft.integer (low high : Int) (expected : String) (d : Draft) : Except Fault Int := do
  match ← d.found with
  | .number (.int n) =>
    if low ≤ n ∧ n ≤ high then .ok n else .error (.shape (.invalidInteger n expected))
  | f => .error (.shape (.invalidType f expected))

/-- Null, or what is asked for. -/
def Draft.optional {α : Type} (read : Draft → Except Fault α) (d : Draft) :
    Except Fault (Option α) := do
  match d with
  | .leaf l =>
    match ← l.read with
    | .null => .ok none
    | _ => (read d).map some
  | _ => (read d).map some

/-! ## Passing over -/

/-- The fault of passing over a leaf. -/
def Leaf.pass (l : Leaf) : Except Fault Unit :=
  match l.skip with
  | some f => .error f
  | none => .ok ()

/-- The fault of passing over the end of a container. -/
def Ending.pass : Ending → Except Fault Unit
  | .closed => .ok ()
  | .cut l => l.pass
  | .dangling l => l.pass

mutual
/-- Passes over a tree, however deep it is. -/
def Draft.pass : Draft → Except Fault Unit
  | .leaf l => l.pass
  | .list items ending => do
    passItems items
    ending.pass
  | .object members ending => do
    passMembers members
    ending.pass
/-- Passes over items. -/
def passItems : List Draft → Except Fault Unit
  | [] => .ok ()
  | d :: ds => do
    d.pass
    passItems ds
/-- Passes over members; their names do not have to be readable. -/
def passMembers : List (Name × Draft) → Except Fault Unit
  | [] => .ok ()
  | (_, d) :: ms => do
    d.pass
    passMembers ms
end

/-! ## Structures -/

/-- How one field is read into a structure. -/
structure FieldReader (σ : Type) where
  name : String
  read : Draft → σ → Except Fault σ

/-- Reads members into a structure: those with the name of a field by its reader, the others by
`other`. The names of fields that have come are `seen`. -/
def readMembers {σ : Type} (fields : List (FieldReader σ))
    (other : String → Draft → σ → Except Fault σ) (seen : List String) (s : σ) :
    List (Name × Draft) → Except Fault (List String × σ)
  | [] => .ok (seen, s)
  | (name, d) :: ms => do
    let name ← name
    match fields.find? fun f => f.name = name with
    | some f =>
      if name ∈ seen then .error (.shape (.duplicateField name))
      else
        let s ← f.read d s
        readMembers fields other (name :: seen) s ms
    | none =>
      let s ← other name d s
      readMembers fields other seen s ms

/-- Passes over a member that is no field. -/
def passOther {σ : Type} (_ : String) (d : Draft) (s : σ) : Except Fault σ := do
  d.pass
  .ok s

/-- Asks for the next item of an array. -/
def nextItem (items : List Draft) (ending : Ending) :
    Except Fault (Option (Draft × List Draft)) :=
  match items with
  | d :: ds => .ok (some (d, ds))
  | [] => ending.read.map fun _ => none

/-- Reads items into a structure, one for each field. Where the items end before the fields, the
structure is left as it is, and the number of items is given. -/
def readItems {σ : Type} (ending : Ending) (count : Nat) (s : σ) :
    List (FieldReader σ) → List Draft → Except Fault (Option Nat × σ × List Draft)
  | [], items => .ok (none, s, items)
  | f :: fs, items => do
    match ← nextItem items ending with
    | none => .ok (some count, s, [])
    | some (d, ds) =>
      let s ← f.read d s
      readItems ending (count + 1) s fs ds

/-- Asks for the end of an array. After the last field, more of it is not well formed. -/
def endItems (items : List Draft) (ending : Ending) : Except Fault Unit :=
  match items, ending with
  | [], .closed => .ok ()
  | [], .cut l => l.read.map fun _ => ()
  | _, _ => .error .malformed

end Holdings.Json
