import Holdings.Format.Ezb
import Holdings.Format.Google
import Holdings.Proofs.Outline
/-!
# Attributes that do not count

Of attributes a reader only asks whether they are well formed. So nodes may be brought to a normal
form, in which all attributes are one of two texts, and every reader makes of the normal form what
it makes of the node itself (`Ezb.holding?_normal`, `Google.item?_normal`).
-/

namespace Holdings.Xml

/-- Attributes in their normal form: none, or a lone equals sign if they are not well formed. -/
def normalAttributes (attributes : List Char) : List Char :=
  if wellFormed attributes then [] else ['=']

theorem wellFormed_normalAttributes (attributes : List Char) :
    wellFormed (normalAttributes attributes) = wellFormed attributes := by
  have hequals : wellFormed ['='] = false := by cbv
  rw [normalAttributes]
  split
  · next h => rw [h, attributesFit_nil.wellFormed]
  · next h => rw [hequals, Bool.eq_false_iff.mpr h]

theorem normalAttributes_eq {attributes attributes' : List Char}
    (h : wellFormed attributes = wellFormed attributes') :
    normalAttributes attributes = normalAttributes attributes' := by
  rw [normalAttributes, h, normalAttributes]

mutual
/-- A node with attributes in their normal form. -/
def Node.normal : Node → Node
  | .element name attributes children =>
    .element name (normalAttributes attributes) (normals children)
  | .text content => .text content
/-- Nodes with attributes in their normal form. -/
def normals : List Node → List Node
  | [] => []
  | n :: ns => n.normal :: normals ns
end

theorem normals_eq_map (ns : List Node) : normals ns = ns.map Node.normal := by
  induction ns with
  | nil => rfl
  | cons n ns ih => rw [normals, ih, List.map_cons]

mutual
theorem Node.isReadable_normal : ∀ n : Node, n.normal.isReadable = n.isReadable
  | .element _ _ children => areReadable_normals children
  | .text _ => rfl
theorem areReadable_normals : ∀ ns : List Node, areReadable (normals ns) = areReadable ns
  | [] => rfl
  | n :: ns => by
      rw [normals, areReadable, areReadable, Node.isReadable_normal n, areReadable_normals ns]
end

/-- A field with nodes in their normal form. -/
def Field.normal (f : Field) : Field := ⟨f.key, normals f.nodes⟩

section

variable {α : Type}

theorem gather?_normals (name : List Char) (ns : List Node) :
    gather? name (normals ns) =
      (gather? name ns).map fun (items, others) => (normals items, normals others) := by
  induction ns with
  | nil => rfl
  | cons n ns ih =>
      cases n with
      | text content =>
          rw [normals, Node.normal, gather?, gather?, ih]
          cases content <;> cases gather? name ns <;> rfl
      | element m attributes children =>
          rw [normals, Node.normal, gather?, gather?, ih, areReadable_normals]
          cases gather? name ns with
          | none => rfl
          | some found =>
              simp only [Option.map_some, Option.bind_eq_bind, Option.bind_some]
              split
              · rfl
              · split <;> rfl

theorem fieldsOf?_normals (lists : List (List Char)) (ns : List Node) :
    fieldsOf? lists (normals ns) = (fieldsOf? lists ns).map (List.map Field.normal) := by
  fun_induction fieldsOf? lists ns with
  | case1 => rw [normals, fieldsOf?]; rfl
  | case2 content ns hcontent ih =>
      rw [normals, Node.normal, fieldsOf?, if_pos hcontent, ih]
  | case3 content ns hcontent =>
      rw [normals, Node.normal, fieldsOf?, if_neg hcontent]
      rfl
  | case4 name attributes children ns key hkey hgather =>
      have hlist : localName name ∈ lists := hkey
      rw [normals, Node.normal, fieldsOf?]
      simp only [if_pos hlist]
      split
      · rfl
      · next items others hfound =>
        rw [gather?_normals, hgather] at hfound
        cases hfound
  | case5 name attributes children ns key this hkey items others hgather ih =>
      have hlist : localName name ∈ lists := hkey
      rw [normals, Node.normal, fieldsOf?]
      simp only [if_pos hlist]
      split
      · next hfound =>
        rw [gather?_normals, hgather] at hfound
        cases hfound
      · next items' others' hfound =>
        rw [gather?_normals, hgather] at hfound
        cases hfound
        rw [ih, Option.map_map, Option.map_map]
        rfl
  | case6 name attributes children ns key this hkey ih =>
      have hlist : localName name ∉ lists := hkey
      rw [normals, Node.normal, fieldsOf?]
      simp only [if_neg hlist]
      rw [ih, Option.map_map, Option.map_map]
      rfl

theorem Node.fields?_normal (singles lists : List String) (n : Node) :
    n.normal.fields? singles lists = (n.fields? singles lists).map (List.map Field.normal) := by
  cases n with
  | text content => rfl
  | element name attributes children =>
      have hkeys : ∀ fs : List Field, (fs.map Field.normal).map Field.key = fs.map Field.key := by
        intro fs
        rw [List.map_map]
        rfl
      have hfilter : ∀ (known : List (List Char)) (fs : List Field),
          (fs.map Field.normal).filter (fun f => decide (f.key ∈ known)) =
            (fs.filter fun f => decide (f.key ∈ known)).map Field.normal := by
        intro known fs
        rw [List.filter_map]
        rfl
      rw [Node.normal, Node.fields?, Node.fields?, fieldsOf?_normals]
      cases fieldsOf? (lists.map String.toList) children with
      | none => rfl
      | some fs =>
          simp only [Option.map_some, Option.bind_eq_bind, Option.bind_some, hfilter, hkeys,
            wellFormed_normalAttributes]
          split <;> rfl

theorem nodesOf_normal (fs : List Field) (key : String) :
    nodesOf (fs.map Field.normal) key = normals (nodesOf fs key) := by
  have hfind : (fs.map Field.normal).find? (fun f => decide (f.key = key.toList)) =
      (fs.find? fun f => decide (f.key = key.toList)).map Field.normal := by
    rw [List.find?_map]
    rfl
  rw [nodesOf, nodesOf, hfind]
  cases fs.find? fun f => decide (f.key = key.toList) <;> rfl

theorem Node.content?_normal (n : Node) : n.normal.content? = n.content? := by
  cases n with
  | text content => rfl
  | element name attributes children =>
      match children with
      | [] | [.text _] | [.element ..] | .text _ :: _ :: _ | .element .. :: _ :: _ => rfl

theorem textOf?_normal (fs : List Field) (key : String) :
    textOf? (fs.map Field.normal) key = textOf? fs key := by
  rw [textOf?, textOf?, nodesOf_normal]
  cases nodesOf fs key with
  | nil => rfl
  | cons n ns => exact n.content?_normal

theorem childOf?_normal {read : Node → Option α} (hread : ∀ n : Node, read n.normal = read n)
    (fs : List Field) (key : String) (default : α) :
    childOf? (fs.map Field.normal) key read default = childOf? fs key read default := by
  rw [childOf?, childOf?, nodesOf_normal]
  cases nodesOf fs key with
  | nil => rfl
  | cons n ns => exact hread n

theorem listOf?_normal {read : Node → Option α} (hread : ∀ n : Node, read n.normal = read n)
    (fs : List Field) (key : String) :
    listOf? (fs.map Field.normal) key read = listOf? fs key read := by
  rw [listOf?, listOf?, nodesOf_normal, normals_eq_map, List.mapM_map]
  exact congrArg (fun f => List.mapM f (nodesOf fs key)) (funext hread)

/-- A reader of fields that makes the same of their normal form does so of a node. -/
theorem bind_fields?_normal {read : List Field → Option α}
    (hread : ∀ fs : List Field, read (fs.map Field.normal) = read fs) {singles lists : List String}
    (n : Node) :
    (n.normal.fields? singles lists).bind read = (n.fields? singles lists).bind read := by
  rw [Node.fields?_normal]
  cases n.fields? singles lists with
  | none => rfl
  | some fs => exact hread fs

end

end Holdings.Xml

/-! ## The readers of both formats -/

namespace Holdings.Ezb

open Xml

theorem boundary?_normal (n : Node) : boundary? n.normal = boundary? n :=
  bind_fields?_normal (fun fs => by simp only [textOf?_normal]) n

theorem entitlement?_normal (n : Node) : entitlement? n.normal = entitlement? n :=
  bind_fields?_normal (fun fs => by simp only [childOf?_normal boundary?_normal]) n

theorem identifiers?_normal (n : Node) : identifiers? n.normal = identifiers? n :=
  bind_fields?_normal (fun fs => by simp only [listOf?_normal Node.content?_normal]) n

theorem entitlements?_normal (n : Node) : entitlements? n.normal = entitlements? n :=
  bind_fields?_normal (fun fs => listOf?_normal entitlement?_normal fs _) n

/-- Of a holding, the attributes do not count. -/
theorem holding?_normal (index : Nat) (n : Node) : holding? index n.normal = holding? index n :=
  bind_fields?_normal (fun fs => by
    simp only [childOf?_normal identifiers?_normal, childOf?_normal entitlements?_normal]) n

end Holdings.Ezb

namespace Holdings.Google

open Xml

theorem boundary?_normal (n : Node) : boundary? n.normal = boundary? n :=
  bind_fields?_normal (fun fs => by simp only [textOf?_normal]) n

theorem days?_normal (n : Node) : days? n.normal = days? n :=
  bind_fields?_normal (fun fs => textOf?_normal fs _) n

theorem coverage?_normal (n : Node) : coverage? n.normal = coverage? n :=
  bind_fields?_normal (fun fs => by
    simp only [childOf?_normal boundary?_normal, childOf?_normal days?_normal]) n

/-- Of an item, the attributes do not count. -/
theorem item?_normal (index : Nat) (n : Node) : item? index n.normal = item? index n :=
  bind_fields?_normal (fun fs => by
    simp only [listOf?_normal Node.content?_normal, listOf?_normal coverage?_normal]) n

end Holdings.Google
