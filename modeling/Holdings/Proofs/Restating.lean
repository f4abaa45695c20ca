import Holdings.Proofs.Elements
import Holdings.Proofs.Qualifiers
import Holdings.Proofs.Renaming
/-!
# Documents with other attributes

A declaration in the root changes the attributes of one tag, and taking declarations out those of
many. Of attributes it only counts whether their names are distinct, and this stays if no tag
declares a name space twice, as in any document of markup: `Part.Restates` says it of two parts, and
their lexemes are alike with prefixes (`Part.Restates.alike_qualified`) and without declarations
(`Part.Restates.alike_undeclared`).
-/

namespace Holdings.Xml

/-! ## Attributes with distinct names -/

namespace Attribute

/-- Attributes of which no two have one name. -/
def Distinct (as : List Attribute) : Prop := as.Pairwise fun a b => a.name ≠ b.name

/-- Attributes that declare no name space twice. -/
def DeclareOnce (as : List Attribute) : Prop :=
  as.Pairwise fun a b => "xmlns".toList <+: a.name → a.name ≠ b.name

/-- Attributes with one more, after the first `i` of them. -/
def insert (i : Nat) (d : Attribute) (as : List Attribute) : List Attribute :=
  as.take i ++ d :: as.drop i

variable {d : Attribute} {as : List Attribute}

theorem perm_insert (i : Nat) (d : Attribute) (as : List Attribute) :
    (insert i d as).Perm (d :: as) := by
  have h : (insert i d as).Perm (d :: (as.take i ++ as.drop i)) := List.perm_middle
  rwa [List.take_append_drop] at h

theorem mem_insert_iff {i : Nat} {a : Attribute} : a ∈ insert i d as ↔ a = d ∨ a ∈ as :=
  (perm_insert i d as).mem_iff.trans List.mem_cons

theorem distinct_insert_iff {i : Nat} :
    Distinct (insert i d as) ↔ (∀ a ∈ as, d.name ≠ a.name) ∧ Distinct as :=
  ((perm_insert i d as).pairwise_iff fun h => Ne.symm h).trans List.pairwise_cons

theorem declareOnce_insert_iff {i : Nat} (hd : "xmlns".toList <+: d.name) :
    DeclareOnce (insert i d as) ↔ (∀ a ∈ as, d.name ≠ a.name) ∧ DeclareOnce as := by
  have hsymm : ∀ {a b : Attribute}, ("xmlns".toList <+: a.name → a.name ≠ b.name) →
      "xmlns".toList <+: b.name → b.name ≠ a.name :=
    fun h hb he => h (he ▸ hb) he.symm
  refine ((perm_insert i d as).pairwise_iff hsymm).trans (List.pairwise_cons.trans ?_)
  exact and_congr_left' (forall₂_congr fun a _ => forall_prop_of_true hd)

theorem isPrefix_of_isDeclaration {a : Attribute} (h : a.isDeclaration = true) :
    "xmlns".toList <+: a.name := by
  simp only [isDeclaration, Bool.and_eq_true] at h
  obtain ⟨rest, hrest, -⟩ := Option.any_eq_true .. |>.mp h.2
  exact ⟨rest, (Text.after?_eq_some_iff.mp hrest).symm⟩

/-- Declarations that are taken out were no reason to refuse a tag. -/
theorem DeclareOnce.distinct_undeclared (h : DeclareOnce as) :
    Distinct (undeclared as) ↔ Distinct as := by
  constructor
  · intro hrest
    refine (h.and (List.pairwise_filter.mp hrest)).imp ?_
    rintro a b ⟨honce, hne⟩ he
    by_cases ha : "xmlns".toList <+: a.name
    · exact honce ha he
    · have hplain : ∀ c : Attribute, c.name = a.name → (!c.isDeclaration) = true := by
        intro c hc
        rw [Bool.not_eq_true', Bool.eq_false_iff]
        exact fun hdeclares => ha (hc ▸ isPrefix_of_isDeclaration hdeclares)
      exact hne (hplain a rfl) (hplain b he.symm) he
  · exact fun hall => hall.filter _

end Attribute

/-! ## Names with a qualifier -/

theorem localName_qualify {p : List Char} (hp : Qualifier p) (name : List Char) :
    localName (qualify p name) = name := by
  have hdrop : (p ++ ':' :: name).dropWhile (· ≠ ':') = ':' :: name :=
    dropWhile_append_stop
      (fun c hc => decide_eq_true fun he => ne_of_isQualifierChar (hp.chars c hc) (he ▸ by simp))
      fun c hc => by simp [← Option.some.inj hc]
  rw [localName, qualify, hdrop]

theorem isQualified_qualify {p : List Char} (hp : Qualifier p) (name : List Char) :
    isQualified (qualify p name) = true := by
  rw [isQualified, localName_qualify hp, decide_eq_true_iff]
  exact fun he => absurd (congrArg List.length he) (by simp [qualify]; omega)

theorem qualify_injective (p : List Char) : Function.Injective (qualify p) :=
  fun _ _ h => (List.cons.inj (List.append_cancel_left h)).2

/-! ## Documents with a declaration in the root -/

/-- An attribute that declares a prefix, with any name space. -/
structure Attribute.Declares (d : Attribute) (p : List Char) : Prop where
  fits : d.Fits
  name : d.name = "xmlns:".toList ++ p

/-- A tag of a document without qualifiers, in which no name space is declared twice. -/
structure Tag.Fits (t : Tag) : Prop where
  name : NameFits t.name
  free : ∀ c ∈ t.name, Text.isBlank c = false
  attributes : ∀ a ∈ t.form.attributes, a.Fits
  once : Attribute.DeclareOnce t.form.attributes
  tail : ∀ c ∈ t.tail, Text.isSpacing c = true

namespace Part

/-- A part of a document without qualifiers. A text starts no tag and declares nothing. -/
def Fits : Part → Prop
  | .tag t => t.Fits
  | .text s => s ≠ [] ∧ '<' ∉ s ∧ Undeclaring s

/-- The attributes of a part. -/
def attributes : Part → List Attribute
  | .tag t => t.form.attributes
  | .text _ => []

/-- The attributes of the first tag. -/
def rootAttributes : List Part → List Attribute
  | [] => []
  | .tag t :: _ => t.form.attributes
  | .text _ :: ps => rootAttributes ps

/-- A document with one more attribute in the first tag, after the first `i` of them. -/
def insertRoot (i : Nat) (d : Attribute) : List Part → List Part
  | [] => []
  | .tag t :: ps => .tag (t.mapAttributes (Attribute.insert i d)) :: ps
  | .text s :: ps => .text s :: insertRoot i d ps

/-- A document in which the root declares a prefix, with this prefix before all names. -/
def prefixed (p : List Char) (i : Nat) (d : Attribute) (ps : List Part) : List Part :=
  (insertRoot i d ps).map (rename (qualify p))

/-- Parts that make a document: no two texts follow one another. -/
structure Written (ps : List Part) : Prop where
  fits : ∀ q ∈ ps, q.Fits
  apart : Apart ps

/-- One part is another one with other attributes, and their names are distinct in either or in
neither. -/
structure Restates (q q' : Part) : Prop where
  fits : q.Fits
  fits' : q'.Fits
  exists_mapAttributes : ∃ g, q' = q.mapAttributes g
  distinct_iff : Attribute.Distinct q'.attributes ↔ Attribute.Distinct q.attributes

variable {q q' : Part} {ps ps' : List Part}

theorem Fits.plain (h : q.Fits) : q.Plain := by
  cases q with
  | tag t => exact ⟨⟨h.name.tagName, h.attributes, h.tail⟩, h.free⟩
  | text s => exact h

theorem Fits.declareOnce (h : q.Fits) : Attribute.DeclareOnce q.attributes := by
  cases q with
  | tag t => exact h.once
  | text s => exact .nil

theorem attributes_undeclared (q : Part) :
    q.undeclared.attributes = Attribute.undeclared q.attributes := by
  cases q with
  | text s => rfl
  | tag t =>
      obtain ⟨form, name, tail⟩ := t
      cases form <;> rfl

theorem Fits.restates (h : q.Fits) : q.Restates q where
  fits := h
  fits' := h
  exists_mapAttributes := ⟨id, q.mapAttributes_id.symm⟩
  distinct_iff := Iff.rfl

/-- A declaration in the root neither makes names distinct nor the same, if it is new. -/
theorem forall₂_restates_insertRoot (hps : ∀ q ∈ ps, q.Fits) {p : List Char} {d : Attribute}
    (hd : d.Declares p) (hnew : ∀ a ∈ rootAttributes ps, d.name ≠ a.name) (i : Nat) :
    List.Forall₂ Restates ps (insertRoot i d ps) := by
  have hdeclares : "xmlns".toList <+: d.name := ⟨':' :: p, hd.name.symm⟩
  induction ps with
  | nil => exact .nil
  | cons q ps ih =>
      obtain ⟨hq, hrest⟩ := List.forall_mem_cons.mp hps
      cases q with
      | text s => exact .cons hq.restates (ih hrest hnew)
      | tag t =>
          refine .cons ?_ (List.forall₂_same.mpr fun q hq => (hrest q hq).restates)
          obtain ⟨form, name, tail⟩ := t
          cases form with
          | closing => exact hq.restates
          | opening as | empty as =>
              refine ⟨hq, ⟨hq.name, hq.free, ?_, ?_, hq.tail⟩, ⟨_, rfl⟩, ?_⟩
              · intro a ha
                rcases Attribute.mem_insert_iff.mp ha with rfl | ha
                · exact hd.fits
                · exact hq.attributes a ha
              · exact (Attribute.declareOnce_insert_iff hdeclares).mpr ⟨hnew, hq.once⟩
              · exact Attribute.distinct_insert_iff.trans (and_iff_right hnew)

theorem fits_of_restates (h : List.Forall₂ Restates ps ps') :
    (∀ q ∈ ps, q.Fits) ∧ ∀ q ∈ ps', q.Fits := by
  induction h with
  | nil => exact ⟨List.forall_mem_nil _, List.forall_mem_nil _⟩
  | cons hq _ ih =>
      exact ⟨List.forall_mem_cons.mpr ⟨hq.fits, ih.1⟩, List.forall_mem_cons.mpr ⟨hq.fits', ih.2⟩⟩

theorem Restates.isTag_eq (h : q.Restates q') : q'.isTag = q.isTag := by
  obtain ⟨g, rfl⟩ := h.exists_mapAttributes
  cases q <;> rfl

theorem map_isTag_of_restates (h : List.Forall₂ Restates ps ps') :
    ps'.map isTag = ps.map isTag := by
  induction h with
  | nil => rfl
  | cons hq _ ih => rw [List.map_cons, List.map_cons, hq.isTag_eq, ih]

theorem apart_iff (ps : List Part) :
    Apart ps ↔ (ps.map isTag).IsChain fun b c => b = true ∨ c = true := by
  rw [Apart, List.isChain_map]

theorem apart_of_restates (h : List.Forall₂ Restates ps ps') (hps : Apart ps) : Apart ps' := by
  rwa [apart_iff, map_isTag_of_restates h, ← apart_iff]

/-- Tags start with a bracket, in either document. -/
theorem head?_writeAll_tag {t : Tag} {g : Part → Part} (hg : ∀ q, (g q).isTag = q.isTag)
    (h : List.Forall₂ Restates (.tag t :: ps) ps') : (writeAll (ps'.map g)).head? = some '<' := by
  cases h with
  | @cons _ q' _ ps' hq _ =>
      have htag : (g q').isTag = true := by rw [hg, hq.isTag_eq]; rfl
      rw [List.map_cons, writeAll, List.flatMap_cons]
      cases hgq : g q' with
      | tag t => rfl
      | text s =>
          rw [hgq] at htag
          cases htag

/-! ## The same tokens -/

variable {f : List Char → List Char}

/-- Attributes with distinct names are well formed, so tags with others are alike. -/
theorem alike_lexeme {g : List Attribute → List Attribute} (hq : q.Cut)
    (hq' : (q.mapAttributes g).Cut)
    (hdistinct : Attribute.Distinct (q.mapAttributes g).attributes ↔
      Attribute.Distinct q.attributes)
    (hname : ∀ t, q = .tag t → localName (f t.name) = localName t.name) :
    q.lexeme.Alike f ((q.mapAttributes g).rename f).lexeme := by
  cases q with
  | text s => exact .text s
  | tag t =>
      have hlocal := hname t rfl
      have hwell : wellFormed t.attributes = wellFormed (t.mapAttributes g).attributes :=
        Bool.eq_iff_iff.mpr ((Attribute.wellFormed_writeAll hq.attributes hq.tail).trans
          (hdistinct.symm.trans (Attribute.wellFormed_writeAll hq'.attributes hq'.tail).symm))
      obtain ⟨form, name, tail⟩ := t
      cases form with
      | closing => exact .closing name
      | opening as => exact .opening hlocal hwell
      | empty as => exact .empty hlocal hwell

theorem Restates.alike_qualified (h : q.Restates q') {p : List Char} (hp : Qualifier p) :
    q.lexeme.Alike (qualify p) (q'.rename (qualify p)).lexeme := by
  obtain ⟨g, rfl⟩ := h.exists_mapAttributes
  refine alike_lexeme h.fits.plain.cut h.fits'.plain.cut h.distinct_iff ?_
  rintro t rfl
  have hname : NameFits t.name := h.fits.name
  rw [localName_qualify hp, localName_of_fits hname]

/-- Without declarations, the names of attributes are distinct if they were before. -/
theorem Restates.alike_undeclared (h : q.Restates q') : q.lexeme.Alike id q'.undeclared.lexeme := by
  obtain ⟨g, rfl⟩ := h.exists_mapAttributes
  have hundeclared : (q.mapAttributes g).undeclared =
      q.mapAttributes (Attribute.undeclared ∘ g) := mapAttributes_mapAttributes g _ q
  have hcut := h.fits'.plain.undeclared.cut
  have hdistinct : Attribute.Distinct (q.mapAttributes g).undeclared.attributes ↔
      Attribute.Distinct q.attributes := by
    rw [attributes_undeclared, h.fits'.declareOnce.distinct_undeclared, h.distinct_iff]
  rw [hundeclared] at hcut hdistinct ⊢
  have halike := alike_lexeme (f := id) h.fits.plain.cut hcut hdistinct fun t _ => rfl
  cases q <;> exact halike

theorem forall₂_alike_undeclared (h : List.Forall₂ Restates ps ps') :
    List.Forall₂ (fun q q' : Part => q.lexeme.Alike id q'.lexeme) ps (ps'.map undeclared) :=
  List.forall₂_map_right_iff.mpr (h.imp fun _ _ hq => hq.alike_undeclared)

end Part

end Holdings.Xml
