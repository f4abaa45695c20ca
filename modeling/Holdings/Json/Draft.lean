import Holdings.Json.Token
/-!
# Drafts

The tree of a JSON text up to the place where it breaks off. What is asked of a text decides
how far it is looked at, and of two faults the one counts that is met first; a draft keeps what
comes before a fault, and the fault in the place where it stands.

A draft is built from tokens by a machine that takes one token at a time. Its state is the list
of open containers, the innermost first, and what may come next.
-/

namespace Holdings.Json

/-- How a container ends: closed, broken off where a comma or its end should be, or broken off
after a comma. -/
inductive Ending where
  | closed
  | cut (l : Leaf)
  | dangling (l : Leaf)

/-- The name of a member, if it can be read. -/
abbrev Name := Except Fault String

/-- A tree, as far as it goes. -/
inductive Draft where
  | leaf (l : Leaf)
  | list (items : List Draft) (ending : Ending)
  | object (members : List (Name × Draft)) (ending : Ending)

/-- A container that is open, its parts the latest first. A member waits for its value. -/
inductive Frame where
  | list (items : List Draft)
  | object (members : List (Name × Draft))
  | member (members : List (Name × Draft)) (name : Name)

/-- What may come next: a value; the first item of an array or its end; an item after a comma;
the first name in an object or its end; a name after a comma; the colon after a name; or, after
a value, a comma or the end of the container. -/
inductive Place where
  | value
  | firstItem
  | nextItem
  | firstName
  | nextName
  | colon
  | separator

/-- The state of the machine. -/
structure State where
  place : Place
  frames : List Frame

/-- What comes of one token: another state, a tree that is complete, or one that breaks off. -/
inductive Move where
  | go (s : State)
  | complete (d : Draft)
  | stop (d : Draft)

/-- An ending that nothing looks at, since what comes before it breaks off. -/
def unseen : Ending := .cut (.broken .malformed)

/-- Gives a broken part to the open containers. -/
def breakOff (d : Draft) : List Frame → Draft
  | [] => d
  | .list items :: fs => breakOff (.list (d :: items).reverse unseen) fs
  | .object members :: fs => breakOff (.object members.reverse unseen) fs
  | .member members name :: fs => breakOff (.object ((name, d) :: members).reverse unseen) fs

/-- Gives a part that is complete to the innermost container. -/
def deliver (d : Draft) : List Frame → Move
  | [] => .complete d
  | .list items :: fs => .go ⟨.separator, .list (d :: items) :: fs⟩
  | .member members name :: fs => .go ⟨.separator, .object ((name, d) :: members) :: fs⟩
  | .object members :: fs => .stop (breakOff d (.object members :: fs))

/-- Ends the innermost container. -/
def endWith (ending : Ending) : List Frame → Draft
  | [] => .leaf (.broken .malformed)
  | .list items :: fs => breakOff (.list items.reverse ending) fs
  | .object members :: fs => breakOff (.object members.reverse ending) fs
  | .member members _ :: fs => breakOff (.object members.reverse ending) fs

/-- The tree that breaks off in a state, with the leaf that stands there. -/
def State.break (s : State) (l : Leaf) : Draft :=
  match s.place with
  | .value => breakOff (.leaf l) s.frames
  | .firstItem => breakOff (.leaf l) s.frames
  | .colon => breakOff (.leaf l) s.frames
  | .nextItem => endWith (.dangling l) s.frames
  | .firstName => endWith (.cut l) s.frames
  | .nextName => endWith (.cut l) s.frames
  | .separator => endWith (.cut l) s.frames

/-- A leaf in the place of a value. -/
def putLeaf (frames : List Frame) (l : Leaf) : Move :=
  if l.skip.isSome then .stop (breakOff (.leaf l) frames) else deliver (.leaf l) frames

/-- A token where a value may start; none if it starts no value. -/
def startValue? (frames : List Frame) : Token → Option Move
  | .openArray => some (.go ⟨.firstItem, .list [] :: frames⟩)
  | .openObject => some (.go ⟨.firstName, .object [] :: frames⟩)
  | .string l => some (putLeaf frames l)
  | .word l => some (putLeaf frames l)
  | _ => none

/-- A token where a value has to start. A token that starts none stands in its place. -/
def needValue (frames : List Frame) (t : Token) : Move :=
  (startValue? frames t).getD (.stop (breakOff (.leaf (.broken .malformed)) frames))

/-- The name that a leaf is. -/
def Leaf.name (l : Leaf) : Name :=
  match l.read with
  | .ok (.string s) => .ok s
  | .ok _ => .error .malformed
  | .error f => .error f

/-- A token where a name has to stand, in an object with the given members. -/
def needName (members : List (Name × Draft)) (frames : List Frame) : Token → Move
  | .string l =>
    if l.skip.isSome then .stop (endWith (.cut l) (.object members :: frames))
    else .go ⟨.colon, .member members l.name :: frames⟩
  | _ => .stop (endWith (.cut (.broken .malformed)) (.object members :: frames))

/-- One token. -/
def step (s : State) (t : Token) : Move :=
  match s.place, s.frames, t with
  | .value, frames, t => needValue frames t
  | .firstItem, .list items :: fs, .closeArray => deliver (.list items.reverse .closed) fs
  | .firstItem, frames, t => needValue frames t
  | .nextItem, frames, .closeArray => .stop (endWith (.dangling (.broken .malformed)) frames)
  | .nextItem, frames, t => needValue frames t
  | .firstName, .object members :: fs, .closeObject =>
    deliver (.object members.reverse .closed) fs
  | .firstName, .object members :: fs, t => needName members fs t
  | .nextName, .object members :: fs, t => needName members fs t
  | .colon, frames, .colon => .go ⟨.value, frames⟩
  | .separator, .list items :: fs, .comma => .go ⟨.nextItem, .list items :: fs⟩
  | .separator, .list items :: fs, .closeArray => deliver (.list items.reverse .closed) fs
  | .separator, .object members :: fs, .comma => .go ⟨.nextName, .object members :: fs⟩
  | .separator, .object members :: fs, .closeObject =>
    deliver (.object members.reverse .closed) fs
  | _, _, _ => .stop (s.break (.broken .malformed))

/-- A text: its tree, and whether anything comes after it. -/
structure Document where
  draft : Draft
  trailing : Bool

/-- Takes tokens until the tree is complete or breaks off. -/
def build (s : State) : List Token → Document
  | [] => ⟨s.break (.broken .endOfText), false⟩
  | t :: ts =>
    match step s t with
    | .go s' => build s' ts
    | .complete d => ⟨d, !ts.isEmpty⟩
    | .stop d => ⟨d, false⟩

/-- The tree of a text. -/
def Document.ofText (s : String) : Document :=
  build ⟨.value, []⟩ (tokens s.toList)

/-! ## Reading values -/

/-- The value of a leaf. -/
def Scalar.value : Scalar → Value
  | .null => .null
  | .bool b => .bool b
  | .number n => .number n
  | .string s => .string s

/-- The fault that ends the reading of a container. -/
def Ending.read : Ending → Except Fault Unit
  | .closed => .ok ()
  | .cut l => l.read.map fun _ => ()
  | .dangling l => l.read.map fun _ => ()

/-- How deep containers may lie in each other, and one more. -/
def depth : Nat := 128

mutual
/-- The value of a tree, in a place where `room` says how deep one may still go. -/
def Draft.value (room : Nat) : Draft → Except Fault Value
  | .leaf l => l.read.map Scalar.value
  | .list items ending =>
    if room ≤ 1 then .error .malformed
    else do
      let vs ← itemValues (room - 1) items
      ending.read
      .ok (.array vs)
  | .object members ending =>
    if room ≤ 1 then .error .malformed
    else do
      let ms ← memberValues (room - 1) [] members
      ending.read
      .ok (.object ms)
/-- The values of items. -/
def itemValues (room : Nat) : List Draft → Except Fault (List Value)
  | [] => .ok []
  | d :: ds => do
    let v ← d.value room
    let vs ← itemValues room ds
    .ok (v :: vs)
/-- Members put after those that are there; a name that comes again takes its new value in its
old place. -/
def memberValues (room : Nat) (done : List (String × Value)) :
    List (Name × Draft) → Except Fault (List (String × Value))
  | [] => .ok done
  | (name, d) :: ms => do
    let name ← name
    let v ← d.value room
    memberValues room (Pairs.put name v done) ms
end

/-- What is read from a whole text. Anything after its value is a fault, but only if the value
itself can be read. -/
def Document.read {α : Type} (d : Document) (f : Draft → Except Fault α) : Except Fault α := do
  let a ← f d.draft
  if d.trailing then .error .malformed else .ok a

/-- The value that a text writes. -/
def Value.parse (s : String) : Except Fault Value :=
  (Document.ofText s).read (Draft.value depth)

end Holdings.Json
