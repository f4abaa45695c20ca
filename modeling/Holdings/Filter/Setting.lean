import Holdings.Json.Fault
/-!
# Settings of filters

The shapes that the settings of leaves may have: strings; a list of identifiers together with
the file of another one; and the places of holdings. The last may also be written as an array of
its fields in their order, of which those at the end may be left out.
-/

namespace Holdings

open Json

/-- The fault of a value that is not what is expected. -/
def mismatch {α : Type} (v : Value) (expected : String) : Except ShapeFault α :=
  .error (.invalidType (.ofValue v) expected)

/-- A string. -/
def stringOf : Value → Except ShapeFault String
  | .string s => .ok s
  | v => mismatch v "a string"

/-- Strings. -/
def stringsOf : Value → Except ShapeFault (List String)
  | .array items => items.mapM stringOf
  | v => mismatch v "a sequence"

/-- A truth value. -/
def flagOf : Value → Except ShapeFault Bool
  | .bool b => .ok b
  | v => mismatch v "a boolean"

/-- Null, or what is asked for. -/
def optionalOf {α : Type} (read : Value → Except ShapeFault α) :
    Value → Except ShapeFault (Option α)
  | .null => .ok none
  | v => (read v).map some

/-- How one field of a setting is read. -/
structure SettingField (σ : Type) where
  name : String
  read : Value → σ → Except ShapeFault σ

/-- Reads the members of an object, all of which have to be fields. -/
def readSettings {σ : Type} (fields : List (SettingField σ)) (s : σ) :
    List (String × Value) → Except ShapeFault σ
  | [] => .ok s
  | (name, v) :: ms =>
    match fields.find? fun f => f.name = name with
    | some f => do
      let s ← f.read v s
      readSettings fields s ms
    | none => .error (.unknownField name (fields.map SettingField.name))

/-- Reads the items of an array, of which there may not be more than fields. -/
def readPositions {σ : Type} (count : Nat) (s : σ) :
    List (SettingField σ) → List Value → Except ShapeFault σ
  | _, [] => .ok s
  | [], _ :: _ => .error (.invalidLength count "fewer elements in array")
  | f :: fs, v :: vs => do
    let s ← f.read v s
    readPositions count s fs vs

/-! ## Lists of identifiers -/

/-- Identifiers, and the file that holds more of them. -/
structure IdentifierSetting where
  list : List String
  file : Option String

namespace IdentifierSetting

/-- The fields. -/
def fields : List (SettingField IdentifierSetting) :=
  [⟨"list", fun v s => do .ok { s with list := ← stringsOf v }⟩,
   ⟨"file", fun v s => do .ok { s with file := ← optionalOf stringOf v }⟩]

/-- The setting in a value that is no array. -/
def ofValue : Value → Except ShapeFault IdentifierSetting
  | .object members => readSettings fields ⟨[], none⟩ members
  | v => mismatch v "struct ListNode"

end IdentifierSetting

/-! ## Places of holdings -/

/-- Where holdings come from, and how they are asked. That titles be compared can be set, but
does nothing. -/
structure HoldingsSetting where
  file : Option String
  files : List String
  urls : List String
  verbose : Option Bool
  compareByTitle : Bool

namespace HoldingsSetting

/-- The fields. -/
def fields : List (SettingField HoldingsSetting) :=
  [⟨"file", fun v s => do .ok { s with file := ← optionalOf stringOf v }⟩,
   ⟨"files", fun v s => do .ok { s with files := ← stringsOf v }⟩,
   ⟨"urls", fun v s => do .ok { s with urls := ← stringsOf v }⟩,
   ⟨"verbose", fun v s => do .ok { s with verbose := ← optionalOf flagOf v }⟩,
   ⟨"compare-by-title", fun v s => do .ok { s with compareByTitle := ← flagOf v }⟩]

/-- Nothing set. -/
def empty : HoldingsSetting := ⟨none, [], [], none, false⟩

/-- The setting in a value. -/
def ofValue : Value → Except ShapeFault HoldingsSetting
  | .object members => readSettings fields empty members
  | .array items => readPositions items.length empty fields items
  | v => mismatch v "struct HoldingsNode"

/-- The places in order: the file, the files, the addresses. -/
def sources (s : HoldingsSetting) : List String := s.file.toList ++ s.files ++ s.urls

end HoldingsSetting

end Holdings
