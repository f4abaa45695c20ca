import Holdings.Proofs.Tags
/-!
# Taking name spaces out of what was written

Declarations and qualifiers are taken out of the characters of a fragment, wherever they stand. In a
document whose texts and values declare nothing this hits only what it should: of the attributes
those that declare a name space in the usual spelling (`Attribute.isDeclaration`), and of the names
the qualifiers (`Part.unqualified_writeAll`). Every part is passed by itself. What would be hit
besides needs a blank before it, and the only blanks that come before other characters than those of
a text or a value are the ones before an attribute or an equals sign.
-/

namespace Holdings

namespace Text

/-- The numbers of the blank characters. -/
def blankNumbers : List Nat :=
  [9, 10, 11, 12, 13, 0x20, 0x85, 0xA0, 0x1680, 0x2000, 0x2001, 0x2002, 0x2003, 0x2004, 0x2005,
    0x2006, 0x2007, 0x2008, 0x2009, 0x200A, 0x2028, 0x2029, 0x202F, 0x205F, 0x3000]

/-- White space is no part of a word. -/
theorem isWord_of_isBlank {c : Char} (h : isBlank c = true) : isWord c = false := by
  have hmem : c.toNat ∈ blankNumbers := by
    simp only [isBlank, Bool.or_eq_true, Bool.and_eq_true, decide_eq_true_eq, beq_iff_eq] at h
    simp only [blankNumbers, List.mem_cons, List.not_mem_nil, or_false]
    omega
  have hall : ∀ n ∈ blankNumbers, inRanges wordRanges n = false := by decide +kernel
  exact hall _ hmem

end Text

namespace Xml

open Text (isBlank isWord)

/-! ## Characters of qualifiers -/

theorem not_isBlank_of_isQualifierChar {c : Char} (h : isQualifierChar c = true) :
    isBlank c = false := by
  rw [Bool.eq_false_iff]
  intro hblank
  simp only [isQualifierChar, Text.isWord_of_isBlank hblank, Bool.false_or, Bool.or_eq_true,
    decide_eq_true_eq] at h
  rcases h with rfl | rfl <;> cases hblank

theorem ne_of_isQualifierChar {c : Char} (h : isQualifierChar c = true) :
    c ∉ [':', '<', '>', '/', '"', '\'', '!', '?', '='] := by
  intro hc
  have hall : [':', '<', '>', '/', '"', '\'', '!', '?', '='].all (!isQualifierChar ·) = true := by
    decide +kernel
  have hnot := List.all_eq_true.mp hall c hc
  rw [h] at hnot
  cases hnot

theorem isTagChar_of_isQualifierChar {c : Char} (h : isQualifierChar c = true) :
    isTagChar c = true := by
  have hspacing := Attribute.not_isSpacing_of_not_isBlank (not_isBlank_of_isQualifierChar h)
  have hne := ne_of_isQualifierChar h
  simp only [List.mem_cons, List.not_mem_nil, or_false, not_or] at hne
  obtain ⟨-, hlt, hgt, hslash, hquote, hquote', hmark, hask, -⟩ := hne
  exact isTagChar_iff.mpr ⟨hspacing, hlt, hgt, hslash, hquote, hquote', hmark, hask⟩

/-! ## Passing over what declares nothing -/

section

variable {s u : List Char}

theorem withoutDeclarations_cons {c : Char} (hc : isBlank c = false) (s : List Char) :
    withoutDeclarations (c :: s) = c :: withoutDeclarations s := by
  rw [withoutDeclarations.eq_def]
  dsimp only
  rw [hc]
  rfl

/-- Without white space there is nothing to take out. -/
theorem withoutDeclarations_free (hs : ∀ c ∈ s, isBlank c = false) (u : List Char) :
    withoutDeclarations (s ++ u) = s ++ withoutDeclarations u := by
  induction s with
  | nil => rfl
  | cons c s ih =>
      obtain ⟨hc, hs⟩ := List.forall_mem_cons.mp hs
      rw [List.cons_append, withoutDeclarations_cons hc, ih hs, List.cons_append]

theorem dropWhile_isBlank_append (hs : ∀ c ∈ s, isBlank c = true)
    (hu : ∀ c, u.head? = some c → isBlank c = false) : (s ++ u).dropWhile isBlank = u :=
  dropWhile_append_stop hs hu

theorem withoutDeclarations_of_none {c : Char} (h : declarationLength? (c :: s) = none) :
    withoutDeclarations (c :: s) = c :: withoutDeclarations s := by
  rw [withoutDeclarations.eq_def]
  dsimp only
  rw [h, ite_self]

/-- Blanks before something else than a declaration stay. -/
theorem withoutDeclarations_blanks (hs : ∀ c ∈ s, isBlank c = true)
    (hu : ∀ c, u.head? = some c → isBlank c = false) (hnone : afterDeclaration? u = none) :
    withoutDeclarations (s ++ u) = s ++ withoutDeclarations u := by
  induction s with
  | nil => rfl
  | cons c s ih =>
      have hlength : declarationLength? (c :: (s ++ u)) = none := by
        rw [declarationLength?, ← List.cons_append, dropWhile_isBlank_append hs hu, hnone]
        rfl
      rw [List.cons_append, withoutDeclarations_of_none hlength,
        ih fun d hd => hs d (List.mem_cons_of_mem c hd), List.cons_append]

/-- Blanks before a declaration are taken out with it. -/
theorem withoutDeclarations_declaration (hne : s ≠ []) (hs : ∀ c ∈ s, isBlank c = true)
    (hu : ∀ c, u.head? = some c → isBlank c = false) {rest : List Char}
    (hdeclares : afterDeclaration? u = some rest) (hrest : rest <:+ u) :
    withoutDeclarations (s ++ u) = withoutDeclarations rest := by
  obtain ⟨c, s, rfl⟩ := List.exists_cons_of_ne_nil hne
  obtain ⟨front, rfl⟩ := hrest
  have hlength : declarationLength? (c :: (s ++ (front ++ rest))) =
      some ((s ++ front).length + 1) := by
    rw [declarationLength?, ← List.cons_append, dropWhile_isBlank_append hs hu, hdeclares]
    simp
    omega
  have hdrop : (s ++ (front ++ rest)).drop ((s ++ front).length + 1 - 1) = rest := by
    rw [← List.append_assoc]
    exact List.drop_left' rfl
  rw [List.cons_append, withoutDeclarations.eq_def]
  dsimp only
  rw [if_pos (hs c List.mem_cons_self), hlength]
  dsimp only
  rw [hdrop]

/-- The letters that begin a declaration come neither from the text behind a blank nor, in part,
from what is after the text. -/
theorem after?_undeclaring {c : Char} (hc : isBlank c = true) (hs : Undeclaring (c :: s))
    (hu : ∀ d, u.head? = some d → d ∉ "xmlns".toList) :
    Text.after? "xmlns".toList (s.dropWhile isBlank ++ u) = none := by
  have hbegins : ∀ more, s.dropWhile isBlank = "xmlns".toList ++ more → False := by
    intro more hmore
    have hsplit := List.takeWhile_append_dropWhile (p := isBlank) (l := s)
    have hblank : ∀ d ∈ c :: s.takeWhile isBlank, isBlank d = true :=
      List.forall_mem_cons.mpr ⟨hc, fun d hd => List.mem_takeWhile_imp hd⟩
    obtain h | ⟨before, b, hconcat⟩ := List.eq_nil_or_concat (c :: s.takeWhile isBlank)
    · cases h
    · rw [List.concat_eq_append] at hconcat
      refine hs b (hblank b (hconcat ▸ by simp)) ⟨before, more, ?_⟩
      rw [← List.singleton_append, ← List.append_assoc, ← hconcat, List.append_assoc, ← hmore,
        List.cons_append, hsplit]
  cases hafter : Text.after? "xmlns".toList (s.dropWhile isBlank ++ u) with
  | none => rfl
  | some rest =>
      rcases List.append_eq_append_iff.mp (Text.after?_eq_some_iff.mp hafter) with
        ⟨part, hpart, hrest⟩ | ⟨more, hmore, -⟩
      · cases part with
        | nil => exact (hbegins [] (by rw [hpart, List.append_nil, List.append_nil])).elim
        | cons d part =>
            have hmem : d ∈ "xmlns".toList := by rw [hpart]; simp
            exact absurd hmem (hu d (by rw [hrest]; rfl))
      · exact (hbegins more hmore).elim

/-- A text or a value that declares nothing stays, if what comes after it cannot be taken for the
rest of a declaration. -/
theorem withoutDeclarations_undeclaring (hs : Undeclaring s)
    (hu : ∀ c, u.head? = some c → isBlank c = false ∧ c ∉ "xmlns".toList) :
    withoutDeclarations (s ++ u) = s ++ withoutDeclarations u := by
  induction s with
  | nil => rfl
  | cons c s ih =>
      have htail : Undeclaring s := fun b hb h =>
        hs b hb (h.trans (List.suffix_cons c s).isInfix)
      have hpass : withoutDeclarations (c :: (s ++ u)) = c :: withoutDeclarations (s ++ u) := by
        cases hc : isBlank c with
        | false => exact withoutDeclarations_cons hc _
        | true =>
            refine withoutDeclarations_of_none ?_
            have hnone := after?_undeclaring hc hs fun d hd => (hu d hd).2
            have hhead : ∀ d, (s.dropWhile isBlank ++ u).head? = some d → isBlank d = false := by
              intro d hd
              have hstart := Text.head?_trimStart s
              rw [Text.trimStart] at hstart
              cases hw : s.dropWhile isBlank with
              | nil =>
                  rw [hw] at hd
                  exact (hu d hd).1
              | cons e w =>
                  rw [hw] at hd hstart
                  rw [← Option.some.inj hd]
                  simpa using hstart
            have hblank : ∀ d ∈ c :: s.takeWhile isBlank, isBlank d = true :=
              List.forall_mem_cons.mpr ⟨hc, fun d hd => List.mem_takeWhile_imp hd⟩
            have hdrop := dropWhile_isBlank_append hblank hhead
            rw [List.cons_append, ← List.append_assoc, List.takeWhile_append_dropWhile] at hdrop
            rw [declarationLength?, hdrop, afterDeclaration?, hnone]
            rfl
      rw [List.cons_append, hpass, ih htail, List.cons_append]

theorem skipWord_of_ne (hs : s.head? ≠ some ':') : skipWord s = s := by
  unfold skipWord
  split
  · exact absurd rfl hs
  · rfl

theorem skipWord_colon (w : Char) (s : List Char) :
    skipWord (':' :: w :: s) = if isWord w then s.dropWhile isWord else ':' :: w :: s := rfl

theorem skipWord_suffix (s : List Char) : skipWord s <:+ s := by
  unfold skipWord
  split
  · next w s =>
    split
    · exact (List.dropWhile_suffix _).trans ((List.suffix_cons w s).trans (List.suffix_cons _ _))
    · exact List.suffix_refl _
  · exact List.suffix_refl _

/-- A word ends before a character that is neither a colon nor part of a word. -/
theorem skipWord_append (s : List Char)
    (hu : ∀ c, u.head? = some c → isWord c = false ∧ c ≠ ':') :
    skipWord (s ++ u) = skipWord s ++ u := by
  have hends : ∀ {w}, (∀ c ∈ w, isWord c = true) → (w ++ u).dropWhile isWord = u :=
    fun hw => dropWhile_append_stop hw fun c hc => (hu c hc).1
  by_cases hcolon : s.head? = some ':'
  · obtain ⟨s, rfl⟩ := List.head?_eq_some_iff.mp hcolon
    cases s with
    | nil =>
        cases u with
        | nil => rfl
        | cons c u =>
            rw [List.singleton_append, skipWord_colon, if_neg (by simp [(hu c rfl).1])]
            rfl
    | cons w s =>
        rw [List.cons_append, List.cons_append, skipWord_colon, skipWord_colon]
        split
        · rw [List.dropWhile_append]
          split
          · next hempty =>
            rw [List.isEmpty_iff.mp hempty]
            exact hends (w := []) (List.forall_mem_nil _)
          · rfl
        · rfl
  · rw [skipWord_of_ne hcolon]
    refine skipWord_of_ne ?_
    cases s with
    | nil => exact fun h => (hu ':' h).2 rfl
    | cons c s => exact hcolon

end

/-! ## Attributes -/

namespace Attribute

/-- Whether an attribute declares a name space in the spelling that is looked for: no blanks around
the equals sign, double quotes, and no other characters in the name than those of words. -/
def isDeclaration (a : Attribute) : Bool :=
  a.before.isEmpty && a.after.isEmpty && a.quote = '"' &&
    (Text.after? "xmlns".toList a.name).any fun rest => (skipWord rest).isEmpty

variable {a : Attribute} {as : List Attribute}

/-- The characters of an attribute behind its name, before some rest. -/
def behindName (a : Attribute) (rest : List Char) : List Char :=
  a.before ++ '=' :: (a.after ++ a.quote :: (a.value ++ a.quote :: rest))

theorem Fits.head?_behindName (h : a.Fits) {rest : List Char} {c : Char}
    (hc : (a.behindName rest).head? = some c) : isBlank c = true ∨ c = '=' := by
  rw [behindName] at hc
  cases hbefore : a.before with
  | nil =>
      rw [hbefore] at hc
      exact .inr (Option.some.inj hc).symm
  | cons b before =>
      rw [hbefore] at hc
      rw [← Option.some.inj hc]
      exact .inl (isBlank_of_isSpacing (h.before b (hbefore ▸ List.mem_cons_self)))

/-- What follows the name is the value of a declaration if nothing stands around the equals sign and
the quotes are double. -/
theorem Fits.afterValue? (h : a.Fits) (rest : List Char) :
    afterValue? (a.behindName rest) =
      if a.before.isEmpty && a.after.isEmpty && a.quote = '"' then some rest else none := by
  have hvalue : (a.value ++ a.quote :: rest).dropWhile (· ≠ a.quote) = a.quote :: rest :=
    dropWhile_append_stop (fun c hc => decide_eq_true fun he => h.closed (he ▸ hc))
      fun c hc => by simp [Option.some.inj hc]
  simp only [ne_eq, decide_not] at hvalue
  rw [behindName]
  cases hbefore : a.before with
  | cons b before =>
      have hb := h.before b (hbefore ▸ List.mem_cons_self)
      have hne : '=' ≠ b := by
        rintro rfl
        cases hb
      simp [Xml.afterValue?, Text.after?, hne]
  | nil =>
      cases hafter : a.after with
      | cons b after =>
          have hb := h.after b (hafter ▸ List.mem_cons_self)
          have hne : '"' ≠ b := by
            rintro rfl
            cases hb
          simp [Xml.afterValue?, Text.after?, hne]
      | nil =>
          by_cases hquote : a.quote = '"'
          · rw [hquote] at hvalue ⊢
            simp [Xml.afterValue?, Text.after?, hvalue]
          · simp [Xml.afterValue?, Text.after?, hquote, Ne.symm hquote]

/-- Behind a blank, an attribute is taken for a declaration if it is one. -/
theorem Fits.afterDeclaration? (h : a.Fits) (rest : List Char) :
    afterDeclaration? (a.name ++ a.behindName rest) =
      if a.isDeclaration then some rest else none := by
  have hnext : ∀ c, (a.behindName rest).head? = some c → isWord c = false ∧ c ≠ ':' := by
    intro c hc
    rcases h.head?_behindName hc with hblank | rfl
    · refine ⟨Text.isWord_of_isBlank hblank, ?_⟩
      rintro rfl
      cases hblank
    · exact ⟨by decide +kernel, by decide⟩
  cases hname : Text.after? "xmlns".toList a.name with
  | some more =>
      have hsplit := Text.after?_eq_some_iff.mp hname
      have hafter : Text.after? "xmlns".toList (a.name ++ a.behindName rest) =
          some (more ++ a.behindName rest) :=
        Text.after?_eq_some_iff.mpr (by rw [hsplit, List.append_assoc])
      rw [Xml.afterDeclaration?, hafter, Option.bind_eq_bind, Option.bind_some,
        skipWord_append more hnext]
      rw [isDeclaration, hname]
      cases hskip : skipWord more with
      | nil => simp [h.afterValue?, hskip]
      | cons c skipped =>
          have hc : '=' ≠ c := by
            rintro rfl
            have hmem : '=' ∈ a.name := by
              rw [hsplit]
              exact List.mem_append_right _ ((skipWord_suffix more).subset (hskip ▸ by simp))
            exact (isAttributeChar_iff.mp (h.name _ hmem)).2.2.2.1 rfl
          simp [Xml.afterValue?, Text.after?, hc, hskip]
  | none =>
      have hafter : Text.after? "xmlns".toList (a.name ++ a.behindName rest) = none := by
        cases hfound : Text.after? "xmlns".toList (a.name ++ a.behindName rest) with
        | none => rfl
        | some more =>
            rcases List.append_eq_append_iff.mp (Text.after?_eq_some_iff.mp hfound) with
              ⟨part, hpart, hbehind⟩ | ⟨part, hpart, -⟩
            · cases part with
              | nil =>
                  rw [List.append_nil] at hpart
                  have hself : Text.after? "xmlns".toList a.name = some [] :=
                    Text.after?_eq_some_iff.mpr (by rw [hpart, List.append_nil])
                  rw [hname] at hself
                  cases hself
              | cons d part =>
                  have hd : d ∈ "xmlns".toList := by rw [hpart]; simp
                  have hfirst : isBlank d = true ∨ d = '=' :=
                    h.head?_behindName (by rw [hbehind]; rfl)
                  have hall : "xmlns".toList.all (fun e => !(isBlank e || e = '=')) = true := by
                    decide
                  have hnot := List.all_eq_true.mp hall d hd
                  rcases hfirst with hblank | rfl
                  · rw [hblank] at hnot
                    cases hnot
                  · cases hnot
            · rw [Text.after?_eq_some_iff.mpr hpart] at hname
              cases hname
      rw [Xml.afterDeclaration?, hafter, isDeclaration, hname]
      simp

theorem blank_of_spacing {s : List Char} (h : ∀ c ∈ s, Text.isSpacing c = true) :
    ∀ c ∈ s, isBlank c = true :=
  fun c hc => isBlank_of_isSpacing (h c hc)

theorem forall_head {P : Char → Prop} {c : Char} {s : List Char} (h : P c) :
    ∀ d, (c :: s).head? = some d → P d :=
  fun _ hd => Option.some.inj hd ▸ h

/-- The name of an attribute starts with no white space. -/
theorem Fits.head?_name (h : a.Fits) (rest : List Char) :
    ∀ c, (a.name ++ rest).head? = some c → isBlank c = false := by
  intro c hc
  obtain ⟨d, name, hname⟩ := List.exists_cons_of_ne_nil h.ne
  rw [hname] at hc
  rw [← Option.some.inj hc]
  exact (isAttributeChar_iff.mp (h.name d (hname ▸ List.mem_cons_self))).1

/-- An attribute stays that is not taken for a declaration, be its value closed or not. -/
theorem Fits.withoutDeclarations_of_none (h : a.Fits) {rest : List Char}
    (hrest : ∀ c, rest.head? = some c → isBlank c = false ∧ c ∉ "xmlns".toList)
    (hnone : Xml.afterDeclaration? (a.name ++ (a.before ++ '=' :: (a.after ++ a.quote ::
      (a.value ++ rest)))) = none) :
    withoutDeclarations (a.lead ++ (a.name ++ (a.before ++ '=' :: (a.after ++ a.quote ::
        (a.value ++ rest))))) =
      a.lead ++ (a.name ++ (a.before ++ '=' :: (a.after ++ a.quote ::
        (a.value ++ withoutDeclarations rest)))) := by
  have hfree : ∀ c ∈ a.name, isBlank c = false :=
    fun c hc => (isAttributeChar_iff.mp (h.name c hc)).1
  have hquote : isBlank a.quote = false ∧ 'x' ≠ a.quote := by
    rcases h.quote with hq | hq <;> rw [hq] <;> decide
  have hvalue : Xml.afterDeclaration? (a.quote :: (a.value ++ rest)) = none := by
    simp [Xml.afterDeclaration?, Text.after?, hquote.2]
  rw [withoutDeclarations_blanks (blank_of_spacing h.lead) (h.head?_name _) hnone,
    withoutDeclarations_free hfree,
    withoutDeclarations_blanks (blank_of_spacing h.before) (forall_head (c := '=') rfl) rfl,
    withoutDeclarations_cons rfl,
    withoutDeclarations_blanks (blank_of_spacing h.after) (forall_head hquote.1) hvalue,
    withoutDeclarations_cons hquote.1, withoutDeclarations_undeclaring h.undeclaring hrest]

/-- A declaration is taken out, and every other attribute stays. -/
theorem Fits.withoutDeclarations (h : a.Fits) (rest : List Char) :
    withoutDeclarations (a.write ++ rest) =
      if a.isDeclaration then withoutDeclarations rest
      else a.write ++ withoutDeclarations rest := by
  have hread := h.afterDeclaration? rest
  cases hdeclares : a.isDeclaration with
  | true =>
      rw [hdeclares, if_pos rfl] at hread
      have hrest : rest <:+ a.name ++ a.behindName rest :=
        ⟨a.name ++ (a.before ++ '=' :: (a.after ++ a.quote :: (a.value ++ [a.quote]))),
          by simp [behindName]⟩
      rw [if_pos rfl, write_append, ← behindName,
        withoutDeclarations_declaration h.apart (blank_of_spacing h.lead) (h.head?_name _) hread
          hrest]
  | false =>
      rw [hdeclares, if_neg Bool.false_ne_true] at hread
      have hquote : isBlank a.quote = false ∧ a.quote ∉ "xmlns".toList := by
        rcases h.quote with hq | hq <;> rw [hq] <;> decide
      rw [if_neg Bool.false_ne_true, write_append, write_append,
        h.withoutDeclarations_of_none (forall_head hquote) hread,
        withoutDeclarations_cons hquote.1]

theorem not_mem_writeAll (h : ∀ a ∈ as, a.Fits) : '<' ∉ writeAll as := by
  intro hc
  obtain ⟨a, ha, hc⟩ := List.mem_flatMap.mp hc
  have hfits := h a ha
  have hquote : '<' ≠ a.quote := by rcases hfits.quote with hq | hq <;> rw [hq] <;> decide
  simp only [write, body, List.mem_append, List.mem_cons, List.not_mem_nil, or_false] at hc
  rcases hc with hc | hc | hc | hc | hc | hc | hc | hc
  · cases hfits.lead _ hc
  · exact (isAttributeChar_iff.mp (hfits.name _ hc)).2.1 rfl
  · cases hfits.before _ hc
  · cases hc
  · cases hfits.after _ hc
  · exact hquote hc
  · exact hfits.noTag hc
  · exact hquote hc

/-- The attributes that declare no name space. -/
def undeclared (as : List Attribute) : List Attribute := as.filter fun a => !a.isDeclaration

theorem withoutDeclarations_writeAll (h : ∀ a ∈ as, a.Fits) (rest : List Char) :
    Xml.withoutDeclarations (writeAll as ++ rest) =
      writeAll (undeclared as) ++ Xml.withoutDeclarations rest := by
  induction as with
  | nil => rfl
  | cons a as ih =>
      obtain ⟨ha, has⟩ := List.forall_mem_cons.mp h
      rw [writeAll, List.flatMap_cons, List.append_assoc, ha.withoutDeclarations, ← writeAll,
        ih has, undeclared, undeclared, List.filter_cons]
      cases a.isDeclaration with
      | true => rfl
      | false =>
          rw [if_neg Bool.false_ne_true, ← List.append_assoc]
          rfl

end Attribute

/-! ## Passing over names without qualifiers -/

section

variable {s : List Char}

/-- Only a bracket begins a tag. -/
theorem withoutQualifiers_of_not_mem (hs : '<' ∉ s) (rest : List Char) :
    withoutQualifiers (s ++ rest) = s ++ withoutQualifiers rest := by
  induction s with
  | nil => rfl
  | cons c s ih =>
      obtain ⟨hc, hs⟩ := not_or.mp (mt List.mem_cons.mpr hs)
      rw [List.cons_append, withoutQualifiers, if_neg (Ne.symm hc), ih hs, List.cons_append]

/-- A qualifier as it may be written. -/
structure Qualifier (p : List Char) : Prop where
  ne : p ≠ []
  chars : ∀ c ∈ p, isQualifierChar c = true

variable {p : List Char}

theorem Qualifier.length? (h : Qualifier p) (rest : List Char) :
    qualifierLength? (p ++ ':' :: rest) = some (p.length + 1) := by
  have htake : (p ++ ':' :: rest).takeWhile isQualifierChar = p :=
    takeWhile_append_stop h.chars fun c hc => by
      rw [← Option.some.inj hc]
      decide +kernel
  have hdrop : (p ++ ':' :: rest).drop p.length = ':' :: rest := List.drop_left' rfl
  rw [qualifierLength?, htake, hdrop]
  exact if_pos ⟨List.length_pos_iff.mpr h.ne, rfl⟩

/-- Behind the bracket of a tag, with or without a slash, a qualifier is taken out. -/
theorem Qualifier.withoutQualifiers (h : Qualifier p) {slash : List Char}
    (hslash : slash = [] ∨ slash = ['/']) (rest : List Char) :
    withoutQualifiers ('<' :: (slash ++ (p ++ ':' :: rest))) =
      '<' :: (slash ++ withoutQualifiers rest) := by
  have hstop : ∀ c, (p ++ ':' :: rest).head? = some c → decide (c = '/') = false := by
    intro c hc
    obtain ⟨d, q, hq⟩ := List.exists_cons_of_ne_nil h.ne
    rw [hq] at hc
    obtain rfl := Option.some.inj hc
    have hd := ne_of_isQualifierChar (h.chars d (hq ▸ List.mem_cons_self))
    simp only [List.mem_cons, not_or] at hd
    exact decide_eq_false hd.2.2.2.1
  have hall : ∀ c ∈ slash, decide (c = '/') = true := by
    rcases hslash with rfl | rfl
    · exact List.forall_mem_nil _
    · exact List.forall_mem_singleton.mpr rfl
  have htake : ((slash ++ (p ++ ':' :: rest)).takeWhile (· = '/')).take 1 = slash := by
    rw [takeWhile_append_stop hall hstop]
    rcases hslash with rfl | rfl <;> rfl
  have hdrop : (slash ++ (p ++ ':' :: rest)).drop slash.length = p ++ ':' :: rest :=
    List.drop_left' rfl
  have hrest : (slash ++ (p ++ ':' :: rest)).drop (slash.length + (p.length + 1)) = rest := by
    have hshape : slash ++ (p ++ ':' :: rest) = (slash ++ (p ++ [':'])) ++ rest := by simp
    rw [hshape]
    exact List.drop_left' (by simp)
  rw [Xml.withoutQualifiers, if_pos rfl]
  dsimp only
  rw [htake, hdrop, h.length?]
  dsimp only
  rw [hrest, List.cons_append]

end

/-! ## Tags and texts -/

/-- A name with a qualifier. -/
def qualify (p name : List Char) : List Char := p ++ ':' :: name

namespace Tag

variable {t : Tag} {p : List Char}

/-- Of a tag, the declarations are taken out. -/
theorem withoutDeclarations_write (h : t.Cut) (hname : ∀ c ∈ t.name, isBlank c = false)
    (rest : List Char) :
    withoutDeclarations (t.write ++ rest) =
      (t.mapAttributes Attribute.undeclared).write ++ withoutDeclarations rest := by
  have hfront : ∀ c ∈ '<' :: t.form.front, isBlank c = false := by
    cases t.form <;> simp [Form.front, Text.isBlank]
  have hback : ∀ c ∈ t.form.back, isBlank c = false := by
    cases t.form <;> simp [Form.back, Text.isBlank]
  have hhead : ∀ c, (t.form.back ++ rest).head? = some c → isBlank c = false := by
    intro c hc
    cases hform : t.form <;> rw [hform] at hc <;> rw [← Option.some.inj hc] <;> rfl
  have hnone : afterDeclaration? (t.form.back ++ rest) = none := by
    cases t.form <;> rfl
  have hshape : t.write ++ rest = ('<' :: t.form.front) ++ (t.name ++
      (Attribute.writeAll t.form.attributes ++ (t.tail ++ (t.form.back ++ rest)))) := by
    simp [write]
  rw [hshape, withoutDeclarations_free hfront, withoutDeclarations_free hname,
    Attribute.withoutDeclarations_writeAll h.attributes,
    withoutDeclarations_blanks (Attribute.blank_of_spacing h.tail) hhead hnone,
    withoutDeclarations_free hback]
  cases hform : t.form <;> simp [write, mapAttributes, hform, Form.mapAttributes, Form.attributes,
    Form.front, Form.back, Attribute.undeclared]

/-- Of a tag, the qualifier is taken out. -/
theorem withoutQualifiers_write (h : t.Cut) (hp : Qualifier p) (rest : List Char) :
    withoutQualifiers ((t.rename (qualify p)).write ++ rest) =
      t.write ++ withoutQualifiers rest := by
  have hslash : t.form.front = [] ∨ t.form.front = ['/'] := by
    cases t.form <;> simp [Form.front]
  have hback : '<' ∉ t.form.back := by
    cases t.form <;> simp [Form.back]
  have hbehind : '<' ∉ t.name ++
      (Attribute.writeAll t.form.attributes ++ (t.tail ++ t.form.back)) := by
    simp only [List.mem_append, not_or]
    refine ⟨h.name.not_mem rfl, Attribute.not_mem_writeAll h.attributes, fun hc => ?_, hback⟩
    cases h.tail _ hc
  have hshape : (t.rename (qualify p)).write ++ rest = '<' :: (t.form.front ++ (p ++ ':' :: ((t.name
      ++ (Attribute.writeAll t.form.attributes ++ (t.tail ++ t.form.back))) ++ rest))) := by
    simp [write, rename, qualify]
  rw [hshape, hp.withoutQualifiers hslash, withoutQualifiers_of_not_mem hbehind]
  simp [write]

end Tag

namespace Part

/-- A part that can be cut, with no white space in the names, and declaring nothing in a text. -/
def Plain : Part → Prop
  | .tag t => t.Cut ∧ ∀ c ∈ t.name, isBlank c = false
  | .text s => s ≠ [] ∧ '<' ∉ s ∧ Undeclaring s

/-- What is left of a part without declarations of name spaces. -/
def undeclared (q : Part) : Part := q.mapAttributes Attribute.undeclared

/-- What comes after the parts is passed by itself, if it starts with a bracket. -/
theorem withoutDeclarations_writeAll {ps : List Part} (hps : ∀ q ∈ ps, q.Plain) (h : Apart ps)
    {rest : List Char} (hrest : ∀ c, rest.head? = some c → c = '<') :
    withoutDeclarations (writeAll ps ++ rest) =
      writeAll (ps.map undeclared) ++ withoutDeclarations rest := by
  induction ps with
  | nil => rfl
  | cons q ps ih =>
      obtain ⟨hq, htail⟩ := List.forall_mem_cons.mp hps
      rw [writeAll, List.flatMap_cons, ← writeAll, List.append_assoc]
      cases q with
      | tag t =>
          rw [write, Tag.withoutDeclarations_write hq.1 hq.2, ih htail h.tail, ← List.append_assoc]
          rfl
      | text s =>
          have hnext : ∀ c, (writeAll ps ++ rest).head? = some c →
              isBlank c = false ∧ c ∉ "xmlns".toList := by
            intro c hc
            rw [head?_append_of_text h hrest c hc]
            decide
          rw [write, withoutDeclarations_undeclaring hq.2.2 hnext, ih htail h.tail,
            ← List.append_assoc]
          rfl

theorem withoutQualifiers_writeAll {p : List Char} (hp : Qualifier p) {ps : List Part}
    (hps : ∀ q ∈ ps, q.Cut) (rest : List Char) :
    withoutQualifiers (writeAll (ps.map (rename (qualify p))) ++ rest) =
      writeAll ps ++ withoutQualifiers rest := by
  induction ps with
  | nil => rfl
  | cons q ps ih =>
      obtain ⟨hq, htail⟩ := List.forall_mem_cons.mp hps
      rw [List.map_cons, writeAll, List.flatMap_cons, ← writeAll, List.append_assoc]
      cases q with
      | tag t =>
          rw [rename, write, Tag.withoutQualifiers_write hq hp, ih htail, ← List.append_assoc]
          rfl
      | text s =>
          rw [rename, write, withoutQualifiers_of_not_mem hq.2, ih htail, ← List.append_assoc]
          rfl

theorem apart_map {f : Part → Part} (hf : ∀ q, (f q).isTag = q.isTag) {ps : List Part}
    (h : Apart ps) : Apart (ps.map f) := by
  rw [Apart, List.isChain_map]
  exact h.imp fun q r hqr => by rwa [hf, hf]

theorem isTag_rename (f : List Char → List Char) (q : Part) : (q.rename f).isTag = q.isTag := by
  cases q <;> rfl

theorem isTag_undeclared (q : Part) : q.undeclared.isTag = q.isTag := by
  cases q <;> rfl

namespace Plain

variable {q : Part}

theorem cut (h : q.Plain) : q.Cut := by
  cases q with
  | tag t => exact h.1
  | text s => exact ⟨h.1, h.2.1⟩

/-- With a qualifier, a part can still be cut. -/
theorem qualified (h : q.Plain) {p : List Char} (hp : Qualifier p) :
    (q.rename (qualify p)).Plain := by
  cases q with
  | text s => exact h
  | tag t =>
      obtain ⟨⟨hname, hattributes, htail⟩, hfree⟩ := h
      have hcolon : isTagChar ':' = true ∧ isBlank ':' = false := by decide
      refine ⟨⟨⟨by simp [Tag.rename, qualify], ?_⟩, hattributes, htail⟩, ?_⟩
      · intro c hc
        rcases List.mem_append.mp hc with hc | hc
        · exact isTagChar_of_isQualifierChar (hp.chars c hc)
        · rcases List.mem_cons.mp hc with rfl | hc
          · exact hcolon.1
          · exact hname.chars c hc
      · intro c hc
        rcases List.mem_append.mp hc with hc | hc
        · exact not_isBlank_of_isQualifierChar (hp.chars c hc)
        · rcases List.mem_cons.mp hc with rfl | hc
          · exact hcolon.2
          · exact hfree c hc

theorem undeclared (h : q.Plain) : q.undeclared.Plain := by
  cases q with
  | text s => exact h
  | tag t =>
      obtain ⟨⟨hname, hattributes, htail⟩, hfree⟩ := h
      refine ⟨⟨hname, fun a ha => ?_, htail⟩, hfree⟩
      cases hform : t.form with
      | opening as | empty as =>
          rw [hform] at hattributes
          rw [Tag.mapAttributes, hform] at ha
          exact hattributes a (List.mem_filter.mp ha).1
      | closing =>
          rw [Tag.mapAttributes, hform] at ha
          cases ha

end Plain

theorem plain_qualified {p : List Char} (hp : Qualifier p) {ps : List Part}
    (h : ∀ q ∈ ps, q.Plain) : ∀ q ∈ ps.map (rename (qualify p)), q.Plain := by
  intro q hq
  obtain ⟨r, hr, rfl⟩ := List.mem_map.mp hq
  exact (h r hr).qualified hp

theorem cut_undeclared {ps : List Part} (h : ∀ q ∈ ps, q.Plain) :
    ∀ q ∈ ps.map undeclared, q.Cut := by
  intro q hq
  obtain ⟨r, hr, rfl⟩ := List.mem_map.mp hq
  exact (h r hr).undeclared.cut

/-- In a document with qualified names, of which the texts and values declare nothing, the
declarations and the qualifiers are taken out and nothing else. -/
theorem unqualified_writeAll_append {p : List Char} (hp : Qualifier p) {ps : List Part}
    (hps : ∀ q ∈ ps, q.Plain) (h : Apart ps) {rest : List Char}
    (hrest : ∀ c, rest.head? = some c → c = '<') :
    unqualified (writeAll (ps.map (rename (qualify p))) ++ rest) =
      writeAll (ps.map undeclared) ++ unqualified rest := by
  have hcomm : (ps.map (rename (qualify p))).map undeclared =
      (ps.map undeclared).map (rename (qualify p)) := by
    rw [List.map_map, List.map_map]
    exact List.map_congr_left fun q _ => by cases q <;> rfl
  rw [unqualified, withoutDeclarations_writeAll (plain_qualified hp hps)
    (apart_map (isTag_rename _) h) hrest, hcomm, withoutQualifiers_writeAll hp (cut_undeclared hps),
    unqualified]

theorem unqualified_writeAll {p : List Char} (hp : Qualifier p) {ps : List Part}
    (hps : ∀ q ∈ ps, q.Plain) (h : Apart ps) :
    unqualified (writeAll (ps.map (rename (qualify p)))) = writeAll (ps.map undeclared) := by
  have hnil : unqualified [] = [] := by
    rw [unqualified, withoutDeclarations.eq_def, withoutQualifiers]
  have hall : unqualified (writeAll (ps.map (rename (qualify p))) ++ []) =
      writeAll (ps.map undeclared) ++ unqualified [] :=
    unqualified_writeAll_append hp hps h fun c hc => by cases hc
  rwa [hnil, List.append_nil, List.append_nil] at hall

end Part

end Xml

end Holdings
