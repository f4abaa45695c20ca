import Mathlib.Data.List.Forall2
import Mathlib.Data.List.Nodup
import Mathlib.Tactic.MkIffOfInductiveProp
import Holdings.Xml.Fields
/-!
# The children of an element

Read as a record, an element has under each name that a reader asks for its children of that name,
in their order, wherever they stand between the others (`Node.Regular.exists_fields`). What it takes
is that texts and attributes can be read, that no text stands behind the first item of a list, that
the items of a list have one full name, and that what is no list comes once.

The reader takes all items of a list where it meets the first one, and goes on with the nodes that
are left. So the induction is on the number of nodes; which field comes first is lost on the way,
but not the nodes of each field (`fieldsNamed`).
-/

namespace Holdings.Xml

/-! ## Nodes and their names -/

namespace Node

/-- The full name of an element; a text has none. -/
def name? : Node → Option (List Char)
  | .element name _ _ => some name
  | .text _ => none

/-- The local name of an element. -/
def key? (n : Node) : Option (List Char) := n.name?.map localName

/-- The attributes of an element. -/
def attributes : Node → List Char
  | .element _ attributes _ => attributes
  | .text _ => []

/-- The nodes in an element. -/
def children : Node → List Node
  | .element _ _ children => children
  | .text _ => []

end Node

/-- The elements of a local name among some nodes. -/
def keyed (key : List Char) (ns : List Node) : List Node := ns.filter (·.key? = some key)

/-- The elements of a local name right in an element. -/
def Node.named (n : Node) (key : String) : List Node := keyed key.toList n.children

/-- What may stand somewhere behind a node: behind an item of a list no text, and under the local
name of the item no element with another full name. -/
def Follows (lists : List (List Char)) (n m : Node) : Prop :=
  ∀ key ∈ lists, n.key? = some key → m.name?.isSome ∧ (m.key? = some key → m.name? = n.name?)

instance (lists : List (List Char)) (n m : Node) : Decidable (Follows lists n m) :=
  inferInstanceAs (Decidable (∀ key ∈ lists, n.key? = some key →
    m.name?.isSome ∧ (m.key? = some key → m.name? = n.name?)))

theorem areReadable_iff {ns : List Node} :
    areReadable ns = true ↔ ∀ n ∈ ns, n.isReadable = true := by
  induction ns with
  | nil => simp [areReadable]
  | cons n ns ih => simp [areReadable, ih]

/-! ## Items of a list -/

/-- The items of a list are the elements of its full name, if nothing but elements follows. -/
theorem gather?_elements {name : List Char} {ns : List Node}
    (helements : ∀ n ∈ ns, n.name?.isSome = true) (hread : areReadable ns = true) :
    gather? name ns = some (ns.filter (·.name? = some name), ns.filter (·.name? ≠ some name)) := by
  induction ns with
  | nil => rfl
  | cons n ns ih =>
      obtain ⟨hn, hns⟩ := List.forall_mem_cons.mp helements
      rw [areReadable, Bool.and_eq_true] at hread
      cases n with
      | text content => cases hn
      | element m attributes children =>
          have hchildren : areReadable children = true := hread.1
          rw [gather?, ih hns hread.2]
          by_cases hm : m = name
          · simp [Node.name?, hm]
          · simp [Node.name?, hm, hchildren]

/-- The fields under one name: one of all elements of a list, one of each other element. -/
def fieldsNamed (lists : List (List Char)) (key : List Char) (ns : List Node) : List Field :=
  if lists.contains key then
    match keyed key ns with
    | [] => []
    | x :: xs => [⟨key, x :: xs⟩]
  else (keyed key ns).map fun n => ⟨key, [n]⟩

section

variable {lists : List (List Char)} {key : List Char} {n : Node} {ns : List Node}

theorem fieldsNamed_of_mem (h : key ∈ lists) :
    fieldsNamed lists key ns = match keyed key ns with
      | [] => []
      | x :: xs => [⟨key, x :: xs⟩] := by
  rw [fieldsNamed, if_pos (List.contains_iff_mem.mpr h)]

theorem fieldsNamed_of_not_mem (h : key ∉ lists) :
    fieldsNamed lists key ns = (keyed key ns).map fun n => ⟨key, [n]⟩ := by
  rw [fieldsNamed, if_neg fun hc => h (List.contains_iff_mem.mp hc)]

theorem fieldsNamed_congr {ms : List Node} (h : keyed key ns = keyed key ms) :
    fieldsNamed lists key ns = fieldsNamed lists key ms := by
  rw [fieldsNamed, fieldsNamed, h]

theorem fieldsNamed_nil : fieldsNamed lists key [] = [] := by
  rw [fieldsNamed]
  split <;> rfl

/-- A list takes all elements of its name with it. -/
theorem fieldsNamed_cons_of_mem {k : List Char} (hk : n.key? = some k) (h : k ∈ lists) :
    fieldsNamed lists key (n :: ns) =
      [⟨k, n :: keyed k ns⟩].filter (·.key = key) ++
        fieldsNamed lists key (ns.filter (·.key? ≠ some k)) := by
  by_cases hkey : k = key
  · subst hkey
    simp [fieldsNamed, h, keyed, hk]
  · have hsame : keyed key (ns.filter (·.key? ≠ some k)) = keyed key (n :: ns) := by
      rw [keyed, keyed, List.filter_filter, List.filter_cons_of_neg (by simp [hk, hkey])]
      apply List.filter_congr
      intro m _
      by_cases hm : m.key? = some key
      · simp [hm, Ne.symm hkey]
      · simp [hm]
    rw [fieldsNamed_congr hsame]
    simp [hkey]

theorem fieldsNamed_cons_of_not_mem {k : List Char} (hk : n.key? = some k) (h : k ∉ lists) :
    fieldsNamed lists key (n :: ns) =
      [⟨k, [n]⟩].filter (·.key = key) ++ fieldsNamed lists key ns := by
  by_cases hkey : k = key
  · subst hkey
    simp [fieldsNamed, h, keyed, hk]
  · simp [fieldsNamed, keyed, hk, hkey]

theorem length_fieldsNamed_le (h : key ∈ lists ∨ (keyed key ns).length ≤ 1) :
    (fieldsNamed lists key ns).length ≤ 1 := by
  by_cases hlist : key ∈ lists
  · rw [fieldsNamed_of_mem hlist]
    cases keyed key ns with
    | nil => exact Nat.zero_le _
    | cons x xs => exact Nat.le_refl _
  · rw [fieldsNamed_of_not_mem hlist, List.length_map]
    exact h.resolve_left hlist

end

/-! ## All fields -/

/-- Behind an item of a list stand elements, of which those of its local name have its full name. -/
theorem gather?_of_follows {lists : List (List Char)} {name attributes : List Char}
    {children ns : List Node} (hlist : localName name ∈ lists) (hread : areReadable ns = true)
    (h : ∀ m ∈ ns, Follows lists (.element name attributes children) m) :
    gather? name ns =
      some (keyed (localName name) ns, ns.filter (·.key? ≠ some (localName name))) := by
  have hfollows : ∀ m ∈ ns, m.name?.isSome ∧
      (m.key? = some (localName name) → m.name? = some name) :=
    fun m hm => h m hm _ hlist rfl
  have hsame : ∀ m ∈ ns, m.name? = some name ↔ m.key? = some (localName name) := by
    intro m hm
    exact ⟨fun hname => by rw [Node.key?, hname]; rfl, (hfollows m hm).2⟩
  rw [gather?_elements (fun m hm => (hfollows m hm).1) hread, keyed]
  congr 2
  · exact List.filter_congr fun m hm => decide_eq_decide.mpr (hsame m hm)
  · exact List.filter_congr fun m hm => decide_eq_decide.mpr (not_congr (hsame m hm))

/-- Nodes that can be read have fields, each under the local name of its elements. -/
theorem exists_fieldsOf (lists : List (List Char)) (ns : List Node) (hread : areReadable ns = true)
    (hapart : ns.Pairwise (Follows lists)) :
    ∃ fs, fieldsOf? lists ns = some fs ∧
      ∀ key, fs.filter (·.key = key) = fieldsNamed lists key ns := by
  -- on the number of nodes: after a list go those that it has not taken
  induction hlen : ns.length using Nat.strongRecOn generalizing ns with
  | ind k ih =>
    cases ns with
    | nil => exact ⟨[], by rw [fieldsOf?], fun key => fieldsNamed_nil.symm⟩
    | cons n ns =>
        obtain ⟨hn, hns⟩ : n.isReadable = true ∧ areReadable ns = true := by
          rwa [areReadable, Bool.and_eq_true] at hread
        obtain ⟨hfollows, hrest⟩ := List.pairwise_cons.mp hapart
        rw [List.length_cons] at hlen
        cases n with
        | text content =>
            have hcontent : content.isSome = true := hn
            obtain ⟨fs, hfs, hkeys⟩ := ih ns.length (by omega) ns hns hrest rfl
            refine ⟨fs, by rw [fieldsOf?, if_pos hcontent, hfs], fun key => (hkeys key).trans ?_⟩
            exact fieldsNamed_congr (List.filter_cons_of_neg (by simp [Node.key?, Node.name?])).symm
        | element name attributes children =>
            have hkey : (Node.element name attributes children).key? = some (localName name) := rfl
            by_cases hlist : localName name ∈ lists
            · have hothers := List.length_filter_le (fun m : Node =>
                decide (m.key? ≠ some (localName name))) ns
              have hothersRead : areReadable (ns.filter (·.key? ≠ some (localName name))) = true :=
                areReadable_iff.mpr fun m hm =>
                  areReadable_iff.mp hns m (List.mem_filter.mp hm).1
              obtain ⟨fs, hfs, hkeys⟩ :=
                ih _ (by omega) _ hothersRead (hrest.sublist List.filter_sublist) rfl
              refine ⟨[⟨localName name, .element name attributes children ::
                keyed (localName name) ns⟩] ++ fs, ?_, fun key => ?_⟩
              · rw [fieldsOf?]
                simp only [if_pos hlist]
                have hgather := gather?_of_follows hlist hns hfollows
                split
                · next hnone => rw [hgather] at hnone; cases hnone
                · next items others hsome =>
                  rw [hgather] at hsome
                  cases hsome
                  rw [hfs]
                  rfl
              · rw [List.filter_append, hkeys, fieldsNamed_cons_of_mem hkey hlist]
            · obtain ⟨fs, hfs, hkeys⟩ := ih ns.length (by omega) ns hns hrest rfl
              refine ⟨[⟨localName name, [.element name attributes children]⟩] ++ fs, ?_,
                fun key => ?_⟩
              · rw [fieldsOf?]
                simp only [if_neg hlist, hfs]
                rfl
              · rw [List.filter_append, hkeys, fieldsNamed_cons_of_not_mem hkey hlist]

/-- The first field of a name has all nodes of that name. -/
theorem nodes_fieldsNamed {fs : List Field} {lists : List (List Char)} {key : String}
    {ns : List Node} (hfs : fs.filter (·.key = key.toList) = fieldsNamed lists key.toList ns)
    (h : key.toList ∈ lists ∨ (keyed key.toList ns).length ≤ 1) :
    nodesOf fs key = keyed key.toList ns := by
  have hfind : fs.find? (fun f => f.key = key.toList) =
      (fieldsNamed lists key.toList ns).head? := by
    rw [← List.head?_filter, hfs]
  rw [nodesOf, hfind]
  by_cases hlist : key.toList ∈ lists
  · rw [fieldsNamed_of_mem hlist]
    cases keyed key.toList ns <;> rfl
  · have hlen := h.resolve_left hlist
    rw [fieldsNamed_of_not_mem hlist]
    match keyed key.toList ns, hlen with
    | [], _ => rfl
    | [_], _ => rfl

/-- Fields have distinct names if there are no two of one name. -/
theorem nodup_keys {fs : List Field} (h : ∀ key, (fs.filter (·.key = key)).length ≤ 1) :
    (fs.map Field.key).Nodup := by
  rw [List.nodup_iff_count_le_one]
  intro key
  have hcount : (fs.map Field.key).count key = (fs.filter (·.key = key)).length := by
    rw [List.count_eq_countP, List.countP_map, List.countP_eq_length_filter]
    congr 1
    apply List.filter_congr
    intro f _
    rw [Function.comp_apply, beq_eq_decide]
  rw [hcount]
  exact h key

namespace Node

/-- An element that can be read as a record with lists of these names: its attributes are well
formed, all texts in it can be read, and nothing stands behind the items of a list that may not. -/
@[mk_iff]
structure Regular (n : Node) (lists : List String) : Prop where
  isElement : n.name?.isSome = true
  attributes : wellFormed n.attributes = true
  readable : n.isReadable = true
  apart : n.children.Pairwise (Follows (lists.map String.toList))

instance (n : Node) (lists : List String) : Decidable (n.Regular lists) :=
  decidable_of_iff' _ (n.regular_iff lists)

/-- Under the names that are asked for stand the children of these names. -/
theorem Regular.exists_fields {n : Node} {lists singles : List String} (h : n.Regular lists)
    (hs : ∀ key ∈ singles, (n.named key).length ≤ 1) :
    ∃ fs, n.fields? singles lists = some fs ∧
      ∀ key ∈ singles ++ lists, nodesOf fs key = n.named key := by
  cases n with
  | text content => cases h.isElement
  | element name attributes ns =>
    obtain ⟨all, hall, hkeys⟩ := exists_fieldsOf (lists.map String.toList) ns h.readable h.apart
    let known := (singles ++ lists).map String.toList
    let fs := all.filter fun f => f.key ∈ known
    have hkept : ∀ key ∈ known, fs.filter (·.key = key) =
        fieldsNamed (lists.map String.toList) key ns := by
      intro key hkey
      rw [← hkeys, List.filter_filter]
      apply List.filter_congr
      intro f _
      by_cases hf : f.key = key
      · simp [hf, hkey]
      · simp [hf]
    have hshort : ∀ key ∈ singles ++ lists,
        key.toList ∈ lists.map String.toList ∨ (keyed key.toList ns).length ≤ 1 := by
      intro key hkey
      rcases List.mem_append.mp hkey with hkey | hkey
      · exact Or.inr (hs key hkey)
      · exact Or.inl (List.mem_map_of_mem hkey)
    have honce : (fs.map Field.key).Nodup := by
      apply nodup_keys
      intro key
      by_cases hkey : key ∈ known
      · obtain ⟨k, hk, rfl⟩ := List.mem_map.mp hkey
        rw [hkept _ hkey]
        exact length_fieldsNamed_le (hshort k hk)
      · have hnone : fs.filter (·.key = key) = [] := by
          rw [List.filter_eq_nil_iff]
          intro f hf he
          have := (List.mem_filter.mp hf).2
          exact hkey (of_decide_eq_true he ▸ of_decide_eq_true this)
        rw [hnone]
        exact Nat.zero_le _
    refine ⟨fs, ?_, fun key hkey => ?_⟩
    · rw [fields?, hall]
      exact if_pos ⟨h.attributes, honce⟩
    · exact nodes_fieldsNamed (hkept _ (List.mem_map_of_mem hkey)) (hshort key hkey)

/-! ## What fields say -/

/-- There is one child of a name, of which `given` holds, or there is none, and `missing` holds. -/
def Holds (n : Node) (key : String) (missing : Prop) (given : Node → Prop) : Prop :=
  (n.named key = [] ∧ missing) ∨ ∃ x, n.named key = [x] ∧ given x

instance (n : Node) (key : String) (missing : Prop) (given : Node → Prop) [Decidable missing]
    [DecidablePred given] : Decidable (n.Holds key missing given) :=
  match h : n.named key with
  | [] => decidable_of_iff missing (by simp [Holds, h])
  | [x] => decidable_of_iff (given x) (by simp [Holds, h])
  | _ :: _ :: _ => .isFalse (by simp [Holds, h])

/-- An element says a text under a name; where it has no child of that name, the empty text. -/
def Says (n : Node) (key text : String) : Prop :=
  n.Holds key (text = "") fun x => x.content? = some text

instance (n : Node) (key text : String) : Decidable (n.Says key text) :=
  inferInstanceAs (Decidable (n.Holds key (text = "") fun x => x.content? = some text))

/-- The children of a name bring some texts, each its own. -/
def Lists (n : Node) (key : String) (texts : List String) : Prop :=
  List.Forall₂ (fun text x => x.content? = some text) texts (n.named key)

instance (n : Node) (key : String) (texts : List String) : Decidable (n.Lists key texts) :=
  inferInstanceAs (Decidable (List.Forall₂ (fun text x => x.content? = some text) texts
    (n.named key)))

section

variable {n : Node} {fs : List Field} {key : String}

theorem Holds.length_le {missing : Prop} {given : Node → Prop} (h : n.Holds key missing given) :
    (n.named key).length ≤ 1 := by
  rcases h with ⟨hnone, -⟩ | ⟨x, hone, -⟩
  · rw [hnone]
    exact Nat.zero_le _
  · rw [hone]
    exact Nat.le_refl _

/-- The field of a child is read as what it holds, whether there is such a child or not. -/
theorem Holds.childOf?_eq {α : Type} {read : Node → Option α} {default a : α} {missing : Prop}
    {given : Node → Prop} (h : n.Holds key missing given) (hfs : nodesOf fs key = n.named key)
    (hnone : missing → default = a) (hone : ∀ x, given x → read x = some a) :
    childOf? fs key read default = some a := by
  rcases h with ⟨hnamed, hmissing⟩ | ⟨x, hnamed, hx⟩
  · rw [childOf?, hfs, hnamed, ← hnone hmissing]
  · rw [childOf?, hfs, hnamed]
    exact hone x hx

theorem Says.textOf?_eq {text : String} (h : n.Says key text)
    (hfs : nodesOf fs key = n.named key) : textOf? fs key = some text := by
  rcases h with ⟨hnone, rfl⟩ | ⟨x, hone, htext⟩
  · rw [textOf?, hfs, hnone]
  · rw [textOf?, hfs, hone]
    exact htext

/-- The items of a list are read one by one, in their order. -/
theorem listOf?_eq {α β : Type} {read : Node → Option β} {made : α → β} {is : α → Node → Prop}
    {as : List α} (h : List.Forall₂ is as (n.named key)) (hfs : nodesOf fs key = n.named key)
    (hread : ∀ a x, is a x → read x = some (made a)) :
    listOf? fs key read = some (as.map made) := by
  rw [listOf?, hfs]
  generalize n.named key = ns at h
  induction h with
  | nil => rfl
  | cons hax _ ih => rw [List.mapM_cons, hread _ _ hax, ih]; rfl

theorem Lists.listOf?_eq {texts : List String} (h : n.Lists key texts)
    (hfs : nodesOf fs key = n.named key) : listOf? fs key Node.content? = some texts := by
  have hlist : listOf? fs key Node.content? = some (texts.map id) :=
    Node.listOf?_eq h hfs fun _ _ htext => htext
  rwa [List.map_id] at hlist

end

end Node

end Holdings.Xml
