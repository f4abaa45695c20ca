import Holdings.Xml.Content
/-!
# The fields of an element

An element read as a record: its attributes have to be well formed, and each child is a field
under its local name. A field that is no list may come once. The items of a list are the
children with the same full name as the first of them, wherever they stand after it, and the
texts in between. Children that no field asks for are passed over, and so is text outside of
lists; but text that is looked at on the way has to be readable, and the search for the items
of a list looks at everything that it passes.
-/

namespace Holdings.Xml

/-- The nodes under one name. -/
structure Field where
  key : List Char
  nodes : List Node

/-- The nodes that belong to a list of elements with a given name, and those that do not. -/
def gather? (name : List Char) : List Node → Option (List Node × List Node)
  | [] => some ([], [])
  | .text content :: ns => do
    let s ← content
    let (items, others) ← gather? name ns
    some (.text (some s) :: items, others)
  | .element n attributes children :: ns => do
    let (items, others) ← gather? name ns
    let this := Node.element n attributes children
    if n = name then some (this :: items, others)
    else if areReadable children then some (items, this :: others)
    else none

theorem length_le_of_gather? {name : List Char} {ns items others : List Node}
    (h : gather? name ns = some (items, others)) : others.length ≤ ns.length := by
  induction ns generalizing items others with
  | nil => simp [gather?] at h; simp [h]
  | cons n ns ih =>
    cases n with
    | text content =>
      cases content with
      | none => simp [gather?] at h
      | some s =>
        cases hg : gather? name ns with
        | none => simp [gather?, hg] at h
        | some p =>
          simp only [gather?, hg, bind, Option.bind_some, Option.some.injEq, Prod.mk.injEq] at h
          exact Nat.le_succ_of_le (h.2 ▸ ih hg)
    | element m attributes children =>
      cases hg : gather? name ns with
      | none => simp [gather?, hg] at h
      | some p =>
        have hp := ih hg
        simp only [gather?, hg, bind, Option.bind_some] at h
        split at h
        · simp only [Option.some.injEq, Prod.mk.injEq] at h
          exact Nat.le_succ_of_le (h.2 ▸ hp)
        · split at h
          · simp only [Option.some.injEq, Prod.mk.injEq] at h
            rw [← h.2]
            exact Nat.succ_le_succ hp
          · cases h

/-- The fields among the children of an element; `lists` are the names of lists. -/
def fieldsOf? (lists : List (List Char)) : List Node → Option (List Field)
  | [] => some []
  | .text content :: ns => if content.isSome then fieldsOf? lists ns else none
  | .element name attributes children :: ns =>
    let key := localName name
    let this := Node.element name attributes children
    if key ∈ lists then
      match _h : gather? name ns with
      | none => none
      | some (items, others) => (fieldsOf? lists others).map (⟨key, this :: items⟩ :: ·)
    else (fieldsOf? lists ns).map (⟨key, [this]⟩ :: ·)
termination_by ns => ns.length
decreasing_by
  · exact Nat.lt_succ_self _
  · exact Nat.lt_succ_of_le (length_le_of_gather? _h)
  · exact Nat.lt_succ_self _

/-- The fields of an element that have one of the given names; none of them comes twice. -/
def Node.fields? (singles lists : List String) : Node → Option (List Field)
  | .text _ => none
  | .element _ attributes children => do
    let known := (singles ++ lists).map String.toList
    let all ← fieldsOf? (lists.map String.toList) children
    let fs := all.filter fun f => f.key ∈ known
    if wellFormed attributes ∧ (fs.map Field.key).Nodup then some fs else none

/-- The nodes of a field, of which there are none if the field is missing. -/
def nodesOf (fs : List Field) (key : String) : List Node :=
  match fs.find? fun f => f.key = key.toList with
  | some f => f.nodes
  | none => []

/-- The text that a node brings: its own, or that of an element without elements in it. -/
def Node.content? : Node → Option String
  | .text content => content.map String.ofList
  | .element _ _ [] => some ""
  | .element _ _ [.text content] => content.map String.ofList
  | .element .. => none

/-- The text of a field, empty if the field is missing. -/
def textOf? (fs : List Field) (key : String) : Option String :=
  match nodesOf fs key with
  | [] => some ""
  | n :: _ => n.content?

/-- What the element of a field is read as, and a default if the field is missing. -/
def childOf? {α : Type} (fs : List Field) (key : String) (read : Node → Option α)
    (default : α) : Option α :=
  match nodesOf fs key with
  | [] => some default
  | n :: _ => read n

/-- What the items of a list are read as. -/
def listOf? {α : Type} (fs : List Field) (key : String) (read : Node → Option α) :
    Option (List α) :=
  (nodesOf fs key).mapM read

end Holdings.Xml
