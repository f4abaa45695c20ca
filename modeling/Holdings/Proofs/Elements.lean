import Holdings.Proofs.Outline
/-!
# Elements found in what was written

The elements of a name that are found among the lexemes of an element are those that were written
under that name, the outermost ones, in their order (`Outline.exists_seen_lexemes`). Where they
stand does not count, so what is found is told by names and characters alone.
-/

namespace Holdings.Xml

/-! ## Elements of a name -/

namespace Outline

mutual
/-- The elements of a name in an element, the outermost ones only. -/
def found (wanted : List Char) : Outline → List Outline
  | .leaf name attributes text tail =>
    if name = wanted then [.leaf name attributes text tail] else []
  | .branch name attributes lead children tail =>
    if name = wanted then [.branch name attributes lead children tail]
    else foundAll wanted children
  | .empty name attributes tail => if name = wanted then [.empty name attributes tail] else []
/-- The elements of a name in some elements, the outermost ones only. -/
def foundAll (wanted : List Char) : List Outline → List Outline
  | [] => []
  | o :: os => o.found wanted ++ foundAll wanted os
end

end Outline

theorem localName_of_fits {name : List Char} (h : NameFits name) : localName name = name := by
  have hd : name.dropWhile (· ≠ ':') = [] := by
    rw [List.dropWhile_eq_nil_iff]
    intro c hc
    exact decide_eq_true (isNameChar_iff.mp (h.chars c hc)).2.2.2.2.2.2.1
  rw [localName, hd]

/-- The names and characters of the elements among lexemes, and whether all are closed. -/
def seen (wanted : List Char) (position : Nat) (ls : List Lexeme) :
    List (List Char × List Char) × Bool :=
  ((elementsFrom wanted position ls).1.map fun e => (e.name, e.raw),
    (elementsFrom wanted position ls).2)

section

variable {wanted : List Char} {position : Nat} {l : Lexeme} {ls : List Lexeme}

theorem seen_nothing (h : sight wanted position l ls = .nothing) :
    seen wanted position (l :: ls) = seen wanted (position + Text.Utf8.size l.raw) ls := by
  rw [seen, elementsFrom, h]
  rfl

theorem seen_element {e : Element} {n : Nat} (h : sight wanted position l ls = .element e n) :
    seen wanted position (l :: ls) =
      ((e.name, e.raw) :: (seen wanted (position + Text.Utf8.size e.raw) (ls.drop n)).1,
        (seen wanted (position + Text.Utf8.size e.raw) (ls.drop n)).2) := by
  rw [seen, elementsFrom, h]
  rfl

theorem exists_seen_textLexemes (wanted : List Char) (position : Nat) (s : List Char)
    (ls : List Lexeme) :
    ∃ next, seen wanted position (Outline.textLexemes s ++ ls) = seen wanted next ls := by
  rw [Outline.textLexemes]
  split
  · exact ⟨position, rfl⟩
  · exact ⟨_, seen_nothing rfl⟩

/-- An element is seen as a whole, and nothing that is inside of it is seen besides. -/
theorem Whole.exists_seen {name : List Char} (h : Whole name ls) (hname : localName name = wanted)
    (position : Nat) (more : List Lexeme) :
    ∃ next, seen wanted position (ls ++ more) =
      ((name, rawOf ls) :: (seen wanted next more).1, (seen wanted next more).2) := by
  cases h with
  | @empty attributes raw =>
      have hsight : sight wanted position ⟨.empty name attributes, raw⟩ more =
          .element ⟨name, position, raw⟩ 0 := by
        rw [sight]
        dsimp only
        rw [if_pos hname]
      rw [List.singleton_append, seen_element hsight, Outline.rawOf_singleton]
      exact ⟨_, rfl⟩
  | @tags attributes raw raw' inside hinside =>
      have hspan : spanLength? 0 ((inside ++ [Lexeme.mk (.closing name) raw']) ++ more) =
          some (inside ++ [Lexeme.mk (.closing name) raw']).length := by
        have hclosing : spanLength? 0 (⟨.closing name, raw'⟩ :: more) = some 1 := rfl
        rw [List.append_assoc, hinside.spanLength?_append, List.singleton_append, hclosing]
        simp [Nat.add_comm]
      have hsight : sight wanted position ⟨.opening name attributes, raw⟩
          ((inside ++ [⟨.closing name, raw'⟩]) ++ more) =
            .element ⟨name, position,
              rawOf (⟨.opening name attributes, raw⟩ :: (inside ++ [⟨.closing name, raw'⟩]))⟩
              (inside ++ [Lexeme.mk (.closing name) raw']).length := by
        rw [sight]
        dsimp only
        rw [if_pos hname, hspan]
        dsimp only
        rw [List.take_left' rfl]
      rw [List.cons_append, seen_element hsight, List.drop_left' rfl]
      exact ⟨_, rfl⟩

end

/-- A name and characters as an element that is found has them. -/
def Outline.key (o : Outline) : List Char × List Char := (o.name, o.element)

/-- What is seen where some elements are followed by lexemes. -/
def followedBy (os : List Outline) (rest : List (List Char × List Char) × Bool) :
    List (List Char × List Char) × Bool :=
  (os.map Outline.key ++ rest.1, rest.2)

namespace Outline

theorem followedBy_append (os os' : List Outline) (rest : List (List Char × List Char) × Bool) :
    followedBy (os ++ os') rest = followedBy os (followedBy os' rest) := by
  simp [followedBy]

/-- An element of the name is seen as a whole. -/
theorem exists_seen_wanted {o : Outline} (h : NameFits o.name) (position : Nat)
    (ls : List Lexeme) :
    ∃ next, seen o.name position (o.lexemes ++ ls) = followedBy [o] (seen o.name next ls) := by
  obtain ⟨next, hnext⟩ := o.whole_lexemes.exists_seen (localName_of_fits h) position ls
  rw [hnext, rawOf_lexemes]
  exact ⟨next, rfl⟩

section

variable {wanted name : List Char} {position : Nat} {ls : List Lexeme}

theorem sight_openLexeme_of_ne {attributes : List Char} (hn : NameFits name)
    (hne : name ≠ wanted) : sight wanted position (openLexeme name attributes) ls = .nothing := by
  rw [sight]
  dsimp only [openLexeme]
  rw [localName_of_fits hn, if_neg hne]

theorem sight_emptyLexeme_of_ne {attributes : List Char} (hn : NameFits name)
    (hne : name ≠ wanted) : sight wanted position (emptyLexeme name attributes) ls = .nothing := by
  rw [sight]
  dsimp only [emptyLexeme]
  rw [localName_of_fits hn, if_neg hne]

end

mutual
/-- The elements of a name among the lexemes of an element are those that were written. -/
theorem exists_seen_lexemes (wanted : List Char) : ∀ o : Outline, o.Fits →
    ∀ (position : Nat) (ls : List Lexeme), ∃ next,
      seen wanted position (o.lexemes ++ ls) = followedBy (o.found wanted) (seen wanted next ls)
  | .leaf name attributes text tail, h, position, ls => by
      by_cases hname : name = wanted
      · rw [found, if_pos hname, ← hname]
        exact exists_seen_wanted h.nameFits position ls
      · rw [found, if_neg hname, lexemes_leaf_append,
          seen_nothing (sight_openLexeme_of_ne h.1 hname)]
        obtain ⟨next, hnext⟩ := exists_seen_textLexemes wanted
          (position + Text.Utf8.size (openLexeme name attributes).raw) text
          (closeLexeme name :: ls)
        rw [hnext, seen_nothing rfl]
        exact ⟨_, rfl⟩
  | .branch name attributes lead children tail, h, position, ls => by
      by_cases hname : name = wanted
      · rw [found, if_pos hname, ← hname]
        exact exists_seen_wanted h.nameFits position ls
      · rw [found, if_neg hname, lexemes_branch_append,
          seen_nothing (sight_openLexeme_of_ne h.1 hname)]
        obtain ⟨next, hnext⟩ := exists_seen_textLexemes wanted
          (position + Text.Utf8.size (openLexeme name attributes).raw) lead
          (allLexemes children ++ closeLexeme name :: ls)
        obtain ⟨next', hnext'⟩ := exists_seen_allLexemes wanted children h.2.2.2.1 next
          (closeLexeme name :: ls)
        rw [hnext, hnext', seen_nothing (l := closeLexeme name) rfl]
        exact ⟨_, rfl⟩
  | .empty name attributes tail, h, position, ls => by
      by_cases hname : name = wanted
      · rw [found, if_pos hname, ← hname]
        exact exists_seen_wanted h.nameFits position ls
      · rw [found, if_neg hname]
        exact ⟨_, seen_nothing (sight_emptyLexeme_of_ne h.1 hname)⟩
/-- The elements of a name among the lexemes of some elements are those that were written. -/
theorem exists_seen_allLexemes (wanted : List Char) : ∀ os : List Outline, AllFit os →
    ∀ (position : Nat) (ls : List Lexeme), ∃ next,
      seen wanted position (allLexemes os ++ ls) =
        followedBy (foundAll wanted os) (seen wanted next ls)
  | [], _, position, ls => ⟨position, rfl⟩
  | o :: os, h, position, ls => by
      rw [allLexemes, List.append_assoc, List.append_assoc]
      obtain ⟨next, hnext⟩ := exists_seen_lexemes wanted o h.1 position
        (textLexemes o.tail ++ (allLexemes os ++ ls))
      obtain ⟨next', hnext'⟩ := exists_seen_textLexemes wanted next o.tail (allLexemes os ++ ls)
      obtain ⟨next'', hnext''⟩ := exists_seen_allLexemes wanted os h.2 next' ls
      rw [hnext, hnext', hnext'', ← followedBy_append, foundAll]
      exact ⟨_, rfl⟩
end

end Outline

end Holdings.Xml
