import Holdings.Proofs.Children
import Holdings.Proofs.Fragments
/-!
# Fields of what was written

An element that was written is one that can be read as a record, whatever its lists are
(`Outline.regular_node`), and its children of a name are those that were written. What a field says
is the text that was written, and blanks at its ends are the only thing that may get lost.
-/

namespace Holdings

/-! ## Blanks that get lost -/

theorem isBlank_of_isSpacing {c : Char} (h : Text.isSpacing c = true) : Text.isBlank c = true := by
  simp only [Text.isSpacing, Bool.or_eq_true, decide_eq_true_eq] at h
  rcases h with ((rfl | rfl) | rfl) | rfl <;> rfl

section

variable {blanks s : List Char}

theorem Text.trimStart_append (h : ∀ c ∈ blanks, isBlank c = true) :
    trimStart (blanks ++ s) = trimStart s :=
  List.dropWhile_append_of_pos h

theorem Text.trimEnd_append (h : ∀ c ∈ blanks, isBlank c = true) :
    trimEnd (s ++ blanks) = trimEnd s := by
  have hreverse : ∀ c ∈ blanks.reverse, isBlank c = true :=
    fun c hc => h c (List.mem_reverse.mp hc)
  rw [trimEnd, List.reverse_append, trimStart_append hreverse, trimEnd]

theorem Text.trim_append (h : ∀ c ∈ blanks, isBlank c = true) : trim (s ++ blanks) = trim s := by
  rw [trim, trimStart, List.dropWhile_append]
  split
  · next hs =>
    have hnil : blanks.dropWhile isBlank = [] := List.dropWhile_eq_nil_iff.mpr h
    rw [trim, trimStart, List.isEmpty_iff.mp hs, hnil]
  · exact trimEnd_append h

end

namespace Xml

/-- Taking the blanks of markup away takes away blanks only. -/
theorem trim_trimBlanks (s : List Char) : Text.trim (trimBlanks s) = Text.trim s := by
  have hend : ∀ t : List Char, Text.trim (skipBlanks t.reverse).reverse = Text.trim t := by
    intro t
    have hcut : t =
        (skipBlanks t.reverse).reverse ++ (t.reverse.takeWhile Text.isSpacing).reverse := by
      rw [← List.reverse_append, skipBlanks, List.takeWhile_append_dropWhile, List.reverse_reverse]
    have hblank : ∀ c ∈ (t.reverse.takeWhile Text.isSpacing).reverse, Text.isBlank c = true :=
      fun c hc => isBlank_of_isSpacing (List.mem_takeWhile_imp (List.mem_reverse.mp hc))
    conv => rhs; rw [hcut, Text.trim_append hblank]
  have hstart : Text.trim (skipBlanks s) = Text.trim s := by
    have hblank : ∀ c ∈ s.takeWhile Text.isSpacing, Text.isBlank c = true :=
      fun c hc => isBlank_of_isSpacing (List.mem_takeWhile_imp hc)
    conv => rhs; rw [← List.takeWhile_append_dropWhile (p := Text.isSpacing) (l := s), Text.trim,
      Text.trimStart_append hblank]
    rfl
  rw [trimBlanks, hend, hstart]

/-- A text without ampersands has no references. -/
theorem resolve?_of_not_mem {s : List Char} (h : '&' ∉ s) : resolve? s = some s := by
  induction s with
  | nil => rw [resolve?]
  | cons c s ih =>
      have hc : c ≠ '&' := fun he => h (he ▸ List.mem_cons_self)
      rw [resolve?, if_neg hc, ih fun hm => h (List.mem_cons_of_mem _ hm)]
      rfl

theorem trimBlanks_sublist (s : List Char) : (trimBlanks s).Sublist s := by
  have hreverse := (List.dropWhile_sublist Text.isSpacing (l := (skipBlanks s).reverse)).reverse
  rw [List.reverse_reverse] at hreverse
  exact hreverse.trans (List.dropWhile_sublist _)

namespace Outline

/-! ## Texts -/

/-- The text in an element, if it is one of a text. -/
def text? : Outline → Option (List Char)
  | .leaf _ _ text _ => some text
  | .branch .. => none
  | .empty .. => some []

/-- What an element says is its text, without the blanks at its ends. -/
theorem content?_node {o : Outline} {text : List Char} (ht : o.text? = some text)
    (h : '&' ∉ text) : o.node.content? = some (String.ofList (trimBlanks text)) := by
  cases o with
  | leaf name attributes s tail =>
      cases ht
      have hresolve : resolve? (trimBlanks text) = some (trimBlanks text) :=
        resolve?_of_not_mem fun hm => h ((trimBlanks_sublist text).mem hm)
      rw [node, textNodes]
      split
      · next hblank => rw [trimBlanks, hblank]; rfl
      · rw [hresolve]; rfl
  | branch => cases ht
  | empty name attributes tail => cases ht; rfl

theorem areReadable_textNodes {s : List Char} (h : (resolve? (trimBlanks s)).isSome = true) :
    areReadable (textNodes s) = true := by
  rw [textNodes]
  split
  · rfl
  · simp [areReadable, Node.isReadable, h]

mutual
/-- What can be written can be read. -/
theorem isReadable_node : ∀ {o : Outline}, o.Fits → o.node.isReadable = true
  | .leaf .., h => areReadable_textNodes h.2.2.2.1
  | .branch .., h => areReadable_nodes h.2.2.2.1
  | .empty .., _ => rfl
theorem areReadable_nodes : ∀ {os : List Outline}, AllFit os → areReadable (nodes os) = true
  | [], _ => rfl
  | o :: os, h => by
      rw [nodes, areReadable, isReadable_node h.1, areReadable_nodes h.2]
      rfl
end

/-! ## Fields -/

/-- The elements in an element. -/
def children : Outline → List Outline
  | .leaf .. => []
  | .branch _ _ _ children _ => children
  | .empty .. => []

/-- Those of some elements that have a given name. -/
def namedIn (key : List Char) (os : List Outline) : List Outline := os.filter (·.name = key)

/-- The elements of a name right in an element. -/
def named (o : Outline) (key : String) : List Outline := namedIn key.toList o.children

theorem AllFit.mem {os : List Outline} (h : AllFit os) : ∀ o ∈ os, o.Fits := by
  induction os with
  | nil => nofun
  | cons o os ih =>
      intro x hx
      rcases List.mem_cons.mp hx with rfl | hx
      · exact h.1
      · exact ih h.2 x hx

theorem Fits.children {o : Outline} (h : o.Fits) : AllFit o.children := by
  cases o with
  | leaf => trivial
  | branch => exact h.2.2.2.1
  | empty => trivial

theorem Fits.named {o : Outline} (h : o.Fits) {key : String} {x : Outline}
    (hx : x ∈ o.named key) : x.Fits :=
  h.children.mem x (List.mem_filter.mp hx).1

/-- A node is an element under the name that it was written under. -/
theorem name?_node (o : Outline) : o.node.name? = some o.name := by
  cases o <;> rfl

theorem key?_node {o : Outline} (h : o.Fits) : o.node.key? = some o.name := by
  rw [Node.key?, name?_node, Option.map_some, localName_of_fits h.nameFits]

theorem children_branch (name attributes lead tail : List Char) (os : List Outline) :
    (branch name attributes lead os tail).node.children = os.map node := by
  rw [node, Node.children, nodes_eq]

/-- In an element with a text there is nothing but this text. -/
theorem length_textNodes_le (s : List Char) : (textNodes s).length ≤ 1 := by
  rw [textNodes]
  split
  · exact Nat.zero_le _
  · exact Nat.le_refl _

theorem regular_node {o : Outline} (h : o.Fits) (lists : List String) : o.node.Regular lists where
  isElement := by rw [name?_node]; rfl
  attributes := by
    have hattributes : o.node.attributes = o.attributes := by cases o <;> rfl
    rw [hattributes]
    exact h.attributesFit.wellFormed
  readable := isReadable_node h
  apart := by
    cases o with
    | leaf name attributes text tail =>
        have hlen : (leaf name attributes text tail).node.children.length ≤ 1 :=
          length_textNodes_le text
        match (leaf name attributes text tail).node.children, hlen with
        | [], _ => exact .nil
        | [n], _ => exact List.pairwise_singleton _ n
    | empty => exact .nil
    | branch name attributes lead os tail =>
        rw [children_branch]
        apply List.pairwise_of_forall_mem_list
        intro n hn m hm key _ hkey
        obtain ⟨x, hx, rfl⟩ := List.mem_map.mp hn
        obtain ⟨y, hy, rfl⟩ := List.mem_map.mp hm
        rw [key?_node (h.children.mem x hx)] at hkey
        refine ⟨by rw [name?_node]; rfl, fun hkey' => ?_⟩
        rw [key?_node (h.children.mem y hy), ← hkey] at hkey'
        rw [name?_node, name?_node, hkey']

/-- The children of a name are those that were written. -/
theorem named_node {o : Outline} (h : o.Fits) (key : String) :
    o.node.named key = (o.named key).map node := by
  cases o with
  | leaf name attributes text tail =>
      have hnone : ∀ n ∈ textNodes text, n.key? = none := by
        rw [textNodes]
        split <;> simp [Node.key?, Node.name?]
      exact List.filter_eq_nil_iff.mpr fun n hn => by simp [hnone n hn]
  | empty => rfl
  | branch name attributes lead os tail =>
      rw [Node.named, children_branch, keyed, List.filter_map]
      congr 1
      apply List.filter_congr
      intro x hx
      simp [key?_node (h.children.mem x hx)]

/-! ## What fields say -/

/-- There is one element of a name in an element, of which `given` holds, or there is none, and
`missing` holds. -/
def Holds (o : Outline) (key : String) (missing : Prop) (given : Outline → Prop) : Prop :=
  (o.named key = [] ∧ missing) ∨ ∃ x, o.named key = [x] ∧ given x

/-- An element says a text under a name; where it has no element of that name, the empty text. -/
def Says (o : Outline) (key : String) (text : List Char) : Prop :=
  o.Holds key (text = []) fun x => x.text? = some text

section

variable {o : Outline} {key : String}

/-- What an element holds that was written, its node holds. -/
theorem Holds.node {missing missing' : Prop} {given : Outline → Prop} {given' : Node → Prop}
    (ho : o.Fits) (h : o.Holds key missing given) (hmissing : missing → missing')
    (hgiven : ∀ x : Outline, x.Fits → given x → given' x.node) :
    o.node.Holds key missing' given' := by
  rw [Node.Holds, named_node ho]
  rcases h with ⟨hnone, hm⟩ | ⟨x, hone, hx⟩
  · rw [hnone]
    exact .inl ⟨rfl, hmissing hm⟩
  · have hfits : x.Fits := ho.named (hone ▸ List.mem_singleton_self x)
    rw [hone]
    exact .inr ⟨x.node, rfl, hgiven x hfits hx⟩

theorem Says.node {text : List Char} (ho : o.Fits) (h : o.Says key text) (hfree : '&' ∉ text) :
    o.node.Says key (String.ofList (trimBlanks text)) := by
  apply Outline.Holds.node ho h
  · rintro rfl
    rfl
  · exact fun x _ htext => content?_node htext hfree

theorem lists_node {texts : List (List Char)} (ho : o.Fits)
    (h : (o.named key).map text? = texts.map some) (hfree : ∀ text ∈ texts, '&' ∉ text) :
    o.node.Lists key (texts.map fun text => String.ofList (trimBlanks text)) := by
  rw [Node.Lists, named_node ho, List.forall₂_map_left_iff, List.forall₂_map_right_iff]
  generalize o.named key = os at h
  induction texts generalizing os with
  | nil =>
      rw [List.map_nil, List.map_eq_nil_iff] at h
      rw [h]
      exact .nil
  | cons text texts ih =>
      cases os with
      | nil => cases h
      | cons x os =>
          obtain ⟨hx, hos⟩ := List.cons.inj h
          obtain ⟨htext, htexts⟩ := List.forall_mem_cons.mp hfree
          exact .cons (content?_node hx htext) (ih htexts os hos)

end

end Outline

/-! ## Documents of texts -/

theorem isSpacing_newline : ∀ c ∈ ['\n'], Text.isSpacing c = true := by
  intro c hc
  rw [List.mem_singleton.mp hc]
  rfl

namespace Outline

/-- An element of a text. -/
def ofText (name text : String) : Outline := .leaf name.toList [] text.toList ['\n']

/-- An element with elements in it. -/
def ofChildren (name : String) (children : List Outline) : Outline :=
  .branch name.toList [] ['\n'] children ['\n']

theorem fits_ofText {name text : String} (hn : NameFits name.toList)
    (h : ∀ c ∈ text.toList, c ≠ '<' ∧ c ≠ '&') : (ofText name text).Fits := by
  have hopen : '<' ∉ text.toList := fun hm => (h _ hm).1 rfl
  have hreference : '&' ∉ trimBlanks text.toList :=
    fun hm => (h _ ((trimBlanks_sublist _).mem hm)).2 rfl
  have hread : (resolve? (trimBlanks text.toList)).isSome = true := by
    rw [resolve?_of_not_mem hreference]
    rfl
  exact ⟨hn, attributesFit_nil, hopen, hread, isSpacing_newline⟩

theorem fits_ofChildren {name : String} {children : List Outline} (hn : NameFits name.toList)
    (h : AllFit children) : (ofChildren name children).Fits :=
  ⟨hn, attributesFit_nil, isSpacing_newline, h, isSpacing_newline⟩

end Outline

/-- A document of one element, after a declaration. -/
def Sheet.ofRoot (root : Outline) : Sheet := ⟨some "xml version=\"1.0\"".toList, ['\n'], root⟩

theorem Sheet.fits_ofRoot {root : Outline} (h : root.Fits) : (ofRoot root).Fits where
  instruction i hi := by
    rw [← Option.some.inj hi]
    decide
  lead := isSpacing_newline
  root := h

end Xml

end Holdings
