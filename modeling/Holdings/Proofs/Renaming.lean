import Mathlib.Data.List.Forall2
import Holdings.Proofs.Normal
import Holdings.Proofs.Spans
/-!
# Other names for the same elements

If every element of a document gets another name, the tags fit where they did, and the elements of a
local name are found in the same places (`forall₂_corresponds`). If the names stay and only the
attributes differ, the same tree is read up to the normal form of the attributes
(`ofFragment?_normal`).
-/

namespace Holdings.Xml

/-- A token and the one that it becomes when names change, and attributes in something that is no
more and no less well formed. The names of elements keep their local name. -/
inductive Token.Alike (f : List Char → List Char) : Token → Token → Prop
  | opening {name attributes attributes' : List Char} (hname : localName (f name) = localName name)
      (h : wellFormed attributes = wellFormed attributes') :
      Alike f (.opening name attributes) (.opening (f name) attributes')
  | empty {name attributes attributes' : List Char} (hname : localName (f name) = localName name)
      (h : wellFormed attributes = wellFormed attributes') :
      Alike f (.empty name attributes) (.empty (f name) attributes')
  | closing (name : List Char) : Alike f (.closing name) (.closing (f name))
  | text (s : List Char) : Alike f (.text s) (.text s)

/-- Lexemes with such tokens. -/
def Lexeme.Alike (f : List Char → List Char) (l l' : Lexeme) : Prop := l.token.Alike f l'.token

section

variable {f : List Char → List Char} {ls ls' : List Lexeme}

/-! ## Tags that fit -/

/-- Names that are told apart before are told apart after, so the first closing tag that does not
fit is the same. -/
theorem exists_nested_take (hf : Function.Injective f) (h : List.Forall₂ (Lexeme.Alike f) ls ls')
    (intact : Bool) (openNames : List (List Char)) :
    ∃ n b, nested intact openNames ls = ⟨ls.take n, b⟩ ∧
      nested intact (openNames.map f) ls' = ⟨ls'.take n, b⟩ := by
  induction h generalizing openNames with
  | nil => exact ⟨0, intact, rfl, rfl⟩
  | @cons l l' ls ls' hl hls ih =>
      obtain ⟨token, raw⟩ := l
      obtain ⟨token', raw'⟩ := l'
      cases hl with
      | @opening name =>
          obtain ⟨n, b, hn, hn'⟩ := ih (name :: openNames)
          rw [List.map_cons] at hn'
          exact ⟨n + 1, b, by simp [nested, hn, Scan.cons], by simp [nested, hn', Scan.cons]⟩
      | closing name =>
          cases openNames with
          | nil => exact ⟨0, false, rfl, rfl⟩
          | cons top rest =>
              by_cases htop : top = name
              · obtain ⟨n, b, hn, hn'⟩ := ih rest
                refine ⟨n + 1, b, ?_, ?_⟩
                · simp [nested, htop, hn, Scan.cons]
                · simp [nested, htop, hn', Scan.cons]
              · refine ⟨0, false, ?_, ?_⟩
                · simp [nested, htop]
                · simp [nested, hf.eq_iff, htop]
      | empty | text =>
          obtain ⟨n, b, hn, hn'⟩ := ih openNames
          exact ⟨n + 1, b, by simp [nested, hn, Scan.cons], by simp [nested, hn', Scan.cons]⟩

/-! ## Elements that are found -/

theorem spanLength?_alike (h : List.Forall₂ (Lexeme.Alike f) ls ls') (depth : Nat) :
    spanLength? depth ls' = spanLength? depth ls := by
  induction h generalizing depth with
  | nil => rfl
  | @cons l l' ls ls' hl hls ih =>
      obtain ⟨token, raw⟩ := l
      obtain ⟨token', raw'⟩ := l'
      have hmap : ∀ depth, (spanLength? depth ls').map (· + 1) =
          (spanLength? depth ls).map (· + 1) := fun depth => by rw [ih]
      cases hl with
      | opening | empty | text => exact hmap _
      | closing name =>
          cases depth with
          | zero => rfl
          | succ depth => exact hmap depth

/-- Two elements that are found at the same lexemes of two documents, one under another name. -/
structure Corresponds (f : List Char → List Char) (wanted : List Char) (position position' : Nat)
    (ls ls' : List Lexeme) (e e' : Element) : Prop where
  name_eq : e'.name = f e.name
  sighted : ∃ first n l after l' after', ls.drop first = l :: after ∧
    ls'.drop first = l' :: after' ∧
    Sighted wanted (position + Text.Utf8.size (rawOf (ls.take first))) l after e n ∧
    Sighted wanted (position' + Text.Utf8.size (rawOf (ls'.take first))) l' after' e' n

theorem Corresponds.of_drop {wanted : List Char} {position position' n : Nat} {e e' : Element}
    (h : Corresponds f wanted (position + Text.Utf8.size (rawOf (ls.take n)))
      (position' + Text.Utf8.size (rawOf (ls'.take n))) (ls.drop n) (ls'.drop n) e e') :
    Corresponds f wanted position position' ls ls' e e' := by
  obtain ⟨hname, first, m, l, after, l', after', hl, hl', hs, hs'⟩ := h
  rw [List.drop_drop] at hl hl'
  rw [Nat.add_assoc, ← Text.Utf8.size_append, ← Outline.rawOf_append, ← List.take_add] at hs hs'
  exact ⟨hname, n + first, m, l, after, l', after', hl, hl', hs, hs'⟩

/-- The same is seen at lexemes that are alike. -/
inductive Sight.Alike (f : List Char → List Char) : Sight → Sight → Prop
  | nothing : Alike f .nothing .nothing
  | element {e e' : Element} (n : Nat) (hname : e'.name = f e.name) :
      Alike f (.element e n) (.element e' n)
  | unclosed : Alike f .unclosed .unclosed

theorem sight_alike (wanted : List Char) (position position' : Nat) {l l' : Lexeme}
    (hl : l.Alike f l') (h : List.Forall₂ (Lexeme.Alike f) ls ls') :
    Sight.Alike f (sight wanted position l ls) (sight wanted position' l' ls') := by
  obtain ⟨token, raw⟩ := l
  obtain ⟨token', raw'⟩ := l'
  cases hl with
  | opening hname =>
      simp only [sight, hname, spanLength?_alike h]
      split
      · split
        · exact .unclosed
        · exact .element _ rfl
      · exact .nothing
  | empty hname =>
      simp only [sight, hname]
      split
      · exact .element _ rfl
      · exact .nothing
  | closing | text => exact .nothing

/-- The elements of a local name are found at the same lexemes. -/
theorem forall₂_corresponds (wanted : List Char) (position position' : Nat)
    (h : List.Forall₂ (Lexeme.Alike f) ls ls') :
    List.Forall₂ (Corresponds f wanted position position' ls ls')
      (elementsFrom wanted position ls).1 (elementsFrom wanted position' ls').1 ∧
    (elementsFrom wanted position' ls').2 = (elementsFrom wanted position ls).2 := by
  induction hlength : ls.length using Nat.strongRecOn generalizing ls ls' position position' with
  | ind m ih =>
    cases h with
    | nil =>
        rw [elementsFrom, elementsFrom]
        exact ⟨.nil, rfl⟩
    | @cons l l' ls ls' hl h =>
        have hsight := sight_alike wanted position position' hl h
        rw [elementsFrom, elementsFrom]
        generalize hs : sight wanted position l ls = s at hsight
        generalize hs' : sight wanted position' l' ls' = s' at hsight
        cases hsight with
        | unclosed => exact ⟨.nil, rfl⟩
        | nothing =>
            obtain ⟨hes, hclosed⟩ := ih _ (hlength ▸ Nat.lt_succ_self _)
              (position + Text.Utf8.size l.raw) (position' + Text.Utf8.size l'.raw) h rfl
            refine ⟨hes.imp fun e e' he => Corresponds.of_drop (n := 1) ?_, hclosed⟩
            simpa [rawOf] using he
        | @element e e' n hname =>
            have hs := sighted_of_sight hs
            have hs' := sighted_of_sight hs'
            have hlt : (ls.drop n).length < m := by
              rw [← hlength, List.length_drop]
              exact Nat.lt_succ_of_le (Nat.sub_le _ _)
            obtain ⟨hes, hclosed⟩ := ih _ hlt (position + Text.Utf8.size e.raw)
              (position' + Text.Utf8.size e'.raw) (List.forall₂_drop n h) rfl
            refine ⟨.cons ⟨hname, 0, n, l, ls, l', ls', rfl, rfl, hs, hs'⟩ ?_, hclosed⟩
            refine hes.imp fun e e' he => Corresponds.of_drop (n := n + 1) ?_
            rwa [hs.raw_eq, hs'.raw_eq] at he

/-! ## What is read -/

/-- An event with attributes in their normal form. -/
def Event.normal : Event → Event
  | .opening name attributes => .opening name (normalAttributes attributes)
  | .closing => .closing
  | .text content => .text content

/-- A frame with attributes in their normal form. -/
def Frame.normal (f : Frame) : Frame :=
  ⟨f.name, normalAttributes f.attributes, f.children.map Node.normal⟩

theorem Frame.normal_add (f : Frame) (n : Node) : (f.add n).normal = f.normal.add n.normal := rfl

theorem Frame.normal_close (f : Frame) : f.normal.close = f.close.normal := by
  rw [close, close, Node.normal, normals_eq_map, List.map_reverse]
  rfl

theorem close?_normal (outer : List Frame) (f : Frame) (es : List Event) :
    close? (outer.map Frame.normal) f.normal (es.map Event.normal) =
      (close? outer f es).map Node.normal := by
  induction es generalizing outer f with
  | nil => rfl
  | cons e es ih =>
      cases e with
      | opening name attributes => exact ih (f :: outer) ⟨name, attributes, []⟩
      | text content =>
          rw [close?, ← ih, Frame.normal_add]
          rfl
      | closing =>
          cases outer with
          | nil =>
              rw [close?, Option.map_some, ← Frame.normal_close]
              rfl
          | cons g outer =>
              rw [close?, ← ih, Frame.normal_add, ← Frame.normal_close]
              rfl

theorem eventsFrom_normal (h : List.Forall₂ (Lexeme.Alike id) ls ls') (pieces : List Piece) :
    (eventsFrom pieces ls').map Event.normal = (eventsFrom pieces ls).map Event.normal := by
  induction h generalizing pieces with
  | nil => rfl
  | @cons l l' ls ls' hl hls ih =>
      obtain ⟨token, raw⟩ := l
      obtain ⟨token', raw'⟩ := l'
      rw [eventsFrom, eventsFrom]
      cases hl with
      | text s => exact ih _
      | opening _ hattributes | empty _ hattributes =>
          simp [Event.normal, ih, normalAttributes_eq hattributes]
      | closing => simp [ih]

end

/-- The element that events start with. -/
def Node.ofEvents? : List Event → Option Node
  | .opening name attributes :: es => close? [] ⟨name, attributes, []⟩ es
  | _ => none

theorem Node.ofFragment?_eq (s : List Char) :
    ofFragment? s = ofEvents? (eventsFrom [] (scan (Document.ofChars s).text).lexemes) := rfl

theorem Node.ofEvents?_normal (es : List Event) :
    ofEvents? (es.map Event.normal) = (ofEvents? es).map Node.normal := by
  match es with
  | [] | .closing :: _ | .text _ :: _ => rfl
  | .opening name attributes :: es => exact close?_normal [] ⟨name, attributes, []⟩ es

/-- A fragment in which only attributes change is read as the same tree up to their normal form. -/
theorem ofFragment?_normal {s s' : List Char}
    (h : List.Forall₂ (Lexeme.Alike id) (scan (Document.ofChars s).text).lexemes
      (scan (Document.ofChars s').text).lexemes) :
    (Node.ofFragment? s').map Node.normal = (Node.ofFragment? s).map Node.normal := by
  rw [Node.ofFragment?_eq, Node.ofFragment?_eq, ← Node.ofEvents?_normal, ← Node.ofEvents?_normal,
    eventsFrom_normal h]

end Holdings.Xml
