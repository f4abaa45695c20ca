import Holdings.Proofs.Restating
import Holdings.Proofs.Shifted
/-!
# Elements that are cut out of two documents

Two documents that differ in names and attributes have their elements at the same parts
(`Part.exists_cutAt`). Behind a byte order mark an element comes with the three bytes before it and
without its last three: the former show the same text in both documents or the end of a tag
(`Part.bytesBefore_cases`), and of the latter the same tokens are left (`Part.exists_cropped`). So
the same is read (`Part.ofFragment?_before`).
-/

namespace Holdings.Xml.Part

open Text.Utf8 (decode? size)

variable {q q' : Part} {ps ps' : List Part} {f : List Char → List Char} {p : List Char}

/-! ## The bytes before an element -/

/-- What stands in two documents before the same place is the same text, or it ends with a tag and
then the same text. -/
theorem exists_last (h : List.Forall₂ Restates ps ps') :
    ∃ s, '<' ∉ s ∧ (writeAll ps = s ∧ writeAll (ps'.map (rename f)) = s ∨
      ∃ front front' t t', Tag.Fits t ∧ Tag.Fits t' ∧ writeAll ps = front ++ (t.write ++ s) ∧
        writeAll (ps'.map (rename f)) = front' ++ ((t'.rename f).write ++ s)) := by
  induction h with
  | nil => exact ⟨[], List.not_mem_nil, .inl ⟨rfl, rfl⟩⟩
  | @cons q q' ps ps' hq _ ih =>
      obtain ⟨hfits, hfits', ⟨g, rfl⟩, -⟩ := hq
      obtain ⟨s, hs, hsame | ⟨front, front', t, t', ht, ht', hwrite, hwrite'⟩⟩ := ih
      · cases q with
        | text s' =>
            refine ⟨s' ++ s, by simp [hs, hfits.2.1], .inl ⟨?_, ?_⟩⟩
            · exact congrArg (s' ++ ·) hsame.1
            · exact congrArg (s' ++ ·) hsame.2
        | tag t =>
            refine ⟨s, hs, .inr ⟨[], [], t, _, hfits, hfits', ?_, ?_⟩⟩
            · exact congrArg (t.write ++ ·) hsame.1
            · exact congrArg (((t.mapAttributes g).rename f).write ++ ·) hsame.2
      · refine ⟨s, hs, .inr ⟨q.write ++ front, ((q.mapAttributes g).rename f).write ++ front',
          t, t', ht, ht', ?_, ?_⟩⟩
        · rw [List.append_assoc, ← hwrite]
          rfl
        · rw [List.append_assoc, ← hwrite']
          rfl

/-- The bytes before a place behind a mark are the same in two documents and show no bracket, or
they show the end of a tag, if anything. -/
theorem bytesBefore_cases (h : List.Forall₂ Restates ps ps') (hp : Qualifier p) :
    (bytesBefore (writeAll (ps'.map (rename (qualify p)))) = bytesBefore (writeAll ps) ∧
      ∀ w, decode? (bytesBefore (writeAll ps)) = some w → '<' ∉ w) ∨
    (∀ w, decode? (bytesBefore (writeAll (ps'.map (rename (qualify p))))) = some w →
      '<' ∉ w ∧ '>' ∈ w) ∧
    ∀ w, decode? (bytesBefore (writeAll ps)) = some w →
      '<' ∉ w ∧ '>' ∈ w ∨ ∃ t as, Tag.Cut t ∧ t.form = .opening as ∧ w = t.write := by
  obtain ⟨s, hs, ⟨hwrite, hwrite'⟩ | ⟨front, front', t, t', ht, ht', hwrite, hwrite'⟩⟩ :=
    exists_last (f := qualify p) h
  · refine .inl ⟨by rw [hwrite, hwrite'], fun w hw => ?_⟩
    have hmark : '<' ∉ mark :: s := by
      simp [hs, mark]
    rw [hwrite] at hw
    exact not_mem_of_decode? hmark (List.drop_suffix _ _) hw
  · -- A text of three bytes hides the tag before it.
    rw [hwrite, hwrite']
    rcases Nat.lt_or_ge (size s) 3 with hsize | hsize
    · refine .inr ⟨fun w hw => ?_, fun w hw => ?_⟩
      · have hcut : (t'.rename (qualify p)).Cut :=
          (((show (Part.tag t').Fits from ht').plain).qualified hp).cut
        -- With a qualifier, a tag is too long to show from its first bracket on.
        refine (Tag.decode?_bytesBefore hcut hs (by omega) hw).resolve_right ?_
        rintro ⟨-, hlength, -⟩
        have hpos := List.length_pos_iff.mpr ht'.name.ne
        simp only [Tag.rename, qualify, List.length_append, List.length_cons] at hlength
        omega
      · have hcut : t.Cut := ((show (Part.tag t).Fits from ht).plain).cut
        rcases Tag.decode?_bytesBefore hcut hs (by omega) hw with hbracket | ⟨⟨as, hform⟩, -, hall⟩
        · exact .inl hbracket
        · exact .inr ⟨t, as, hcut, hform, hall⟩
    · rw [← List.append_assoc, ← List.append_assoc, bytesBefore_append hsize,
        bytesBefore_append hsize]
      exact .inl ⟨rfl, fun w hw => not_mem_of_decode? hs (List.drop_suffix _ _) hw⟩

/-! ## Elements without their end -/

/-- The parts of an element after its first tag: none if this is empty, or others in which nothing
closes it, and the tag that does. -/
inductive Span : Tag → List Part → Prop
  | empty (as : List Attribute) (name tail : List Char) : Span ⟨.empty as, name, tail⟩ []
  | opened {mid : List Part} (as : List Attribute) (name tail tail' : List Char)
      (h : spanLength? 0 (mid.map lexeme) = none) :
      Span ⟨.opening as, name, tail⟩ (mid ++ [.tag ⟨.closing, name, tail'⟩])

theorem exists_cropped_empty {as as' : List Attribute} {name tail : List Char}
    (h : (Part.tag ⟨.empty as, name, tail⟩).Fits) (h' : (Part.tag ⟨.empty as', name, tail⟩).Fits)
    (hname : Croppable name) (hp : Qualifier p) :
    ∃ x x', Shortened (Tag.mk (.empty as) name tail).write x ∧
      Shortened ((Tag.mk (.empty as') name tail).rename (qualify p)).write x' ∧
      Cropped x (unqualified x') := by
  obtain ⟨hcut, hfree⟩ := h.plain
  have hcut' := h'.plain.cut
  obtain ⟨bs, hbs, hread⟩ := Tag.exists_unqualified_cropped hcut' hfree hp
  have hlast : ∀ c, name.getLast? = some c → c.toNat ≤ 0x7F :=
    fun c hc => hname.ascii c (List.mem_of_getLast? hc)
  have hqualified : (qualify p name).getLast? = name.getLast? := by
    rw [qualify, List.append_cons]
    exact List.getLast?_append_of_ne_nil _ hcut.name.ne
  refine ⟨_, _, Tag.shortened_empty hcut hlast,
    Tag.shortened_empty (h'.plain.qualified hp).cut (hqualified.symm ▸ hlast), ?_⟩
  rw [hread]
  exact .of_empty hcut ⟨hcut.name, hbs, hcut.tail⟩

theorem exists_cropped_opened {t : Tag} {as : List Attribute} (hform : t.form = .opening as)
    (h : List.Forall₂ Restates (.tag t :: ps) ps') (hapart : Apart (.tag t :: ps))
    (hspan : spanLength? 0 (ps.map lexeme) = none) {name tail : List Char}
    (hclosing : (Part.tag ⟨.closing, name, tail⟩).Fits) (hname : Croppable name)
    (hp : Qualifier p) :
    ∃ x x', Shortened (writeAll (.tag t :: ps ++ [Part.tag ⟨.closing, name, tail⟩])) x ∧
      Shortened
        (writeAll ((ps' ++ [Part.tag ⟨.closing, name, tail⟩]).map (rename (qualify p)))) x' ∧
      Cropped x (unqualified x') := by
  obtain ⟨hfits, hfits'⟩ := fits_of_restates h
  obtain ⟨⟨htag, -, hspacing⟩, hfree⟩ := hclosing.plain
  have hplain : ∀ q ∈ ps', q.Plain := fun q hq => (hfits' q hq).plain
  have hapart' := apart_of_restates h hapart
  obtain ⟨i, j, y, hwrite, hy⟩ := Tag.exists_cropped_closing hname hspacing
  dsimp only at htag hspacing hfree hwrite
  have hbody : '>' ∉ name.take i ++ tail.take j := by
    intro hc
    rcases List.mem_append.mp hc with hc | hc
    · exact htag.not_mem (c := '>') rfl (List.mem_of_mem_take hc)
    · cases hspacing _ (List.mem_of_mem_take hc)
  have hqualified : (Tag.mk .closing name tail).rename (qualify p) =
      Tag.mk .closing (qualify p name) tail := rfl
  have hread : unqualified (writeAll (ps'.map (rename (qualify p))) ++
      '<' :: '/' :: qualify p (name.take i ++ tail.take j)) =
        writeAll (ps'.map undeclared) ++ '<' :: '/' :: (name.take i ++ tail.take j) := by
    rw [unqualified_writeAll_append hp hplain hapart' (by simp),
      Tag.unqualified_closing hp htag hfree hspacing]
  refine ⟨writeAll (.tag t :: ps) ++ '<' :: '/' :: (name.take i ++ tail.take j),
    writeAll (ps'.map (rename (qualify p))) ++
      '<' :: '/' :: qualify p (name.take i ++ tail.take j), ⟨rfl, y, ?_, hy⟩, ⟨?_, y, ?_, hy⟩, ?_⟩
  · rw [writeAll_concat, write, Tag.write_closing, hwrite]
    simp
  · rw [List.head?_append, head?_writeAll_tag (isTag_rename _) h]
    rfl
  · rw [List.map_append, List.map_singleton, writeAll_concat, rename, hqualified, write,
      Tag.write_closing, qualify, List.append_assoc, List.cons_append, hwrite]
    simp [qualify]
  · rw [hread]
    refine .of_opening hform (fun q hq => (hfits q hq).plain.cut) hapart (cut_undeclared hplain)
      (apart_map isTag_undeclared hapart') (forall₂_alike_undeclared h) hspan hbody fun c hc => ?_
    rw [head?_writeAll_tag isTag_undeclared h] at hc
    exact (Option.some.inj hc).symm

/-- What is left of an element without its last three bytes is the same in two documents, once the
qualifiers are taken out. -/
theorem exists_cropped {t : Tag} (hspan : Span t ps)
    (h : List.Forall₂ Restates (.tag t :: ps) ps') (hapart : Apart (.tag t :: ps))
    (hname : Croppable t.name) (hp : Qualifier p) :
    ∃ x x', Shortened (writeAll (.tag t :: ps)) x ∧
      Shortened (writeAll (ps'.map (rename (qualify p)))) x' ∧ Cropped x (unqualified x') := by
  cases hspan with
  | empty as name tail =>
      obtain ⟨_, _, ⟨hfits, hfits', ⟨g, rfl⟩, -⟩, hnil, rfl⟩ := List.forall₂_cons_left_iff.mp h
      obtain rfl := List.forall₂_nil_left_iff.mp hnil
      have hsingle : ∀ q : Part, writeAll [q] = q.write := fun q => writeAll_concat [] q
      rw [hsingle, List.map_singleton, hsingle]
      exact exists_cropped_empty hfits hfits' hname hp
  | @opened mid as name tail tail' hnone =>
      rw [← List.cons_append] at h hapart ⊢
      have hmid := List.forall₂_take (mid.length + 1) h
      have hlast := List.forall₂_drop (mid.length + 1) h
      rw [List.take_left' List.length_cons] at hmid
      rw [List.drop_left' List.length_cons] at hlast
      obtain ⟨_, _, ⟨hfits, -, ⟨g, rfl⟩, -⟩, hnil, hps'⟩ := List.forall₂_cons_left_iff.mp hlast
      obtain rfl := List.forall₂_nil_left_iff.mp hnil
      rw [← List.take_append_drop (mid.length + 1) ps', hps']
      exact exists_cropped_opened rfl hmid hapart.left_of_append hnone hfits hname hp

/-! ## Elements at the same parts -/

/-- An element of a document, and the parts before it and of it. -/
structure CutAt (ps : List Part) (e : Element) (before span : List Part) : Prop where
  exists_after : ∃ after, ps = before ++ (span ++ after)
  position_eq : e.position = size (writeAll before)
  raw_eq : e.raw = writeAll span

variable {wanted : List Char} {e e' : Element} {l : Lexeme} {after : List Lexeme}
  {k first n position : Nat}

theorem cutAt_of_sighted (hl : ((ps.take k).map lexeme).drop first = l :: after)
    (hs : Sighted wanted (0 + size (rawOf (((ps.take k).map lexeme).take first))) l after e n) :
    CutAt ps e ((ps.take k).take first) (((ps.take k).drop first).take (n + 1)) where
  exists_after := by
    refine ⟨((ps.take k).drop first).drop (n + 1) ++ ps.drop k, ?_⟩
    rw [← List.append_assoc (List.take (n + 1) _), List.take_append_drop, ← List.append_assoc,
      List.take_append_drop, List.take_append_drop]
  position_eq := by
    rw [hs.position_eq, Nat.zero_add, ← List.map_take, rawOf_map_lexeme]
  raw_eq := by
    rw [hs.raw_eq, ← List.take_succ_cons, ← hl, ← List.map_drop, ← List.map_take, rawOf_map_lexeme]

/-- An element that is found in a document is the span of its first tag. -/
theorem exists_span (hread : (scan (writeAll ps)).lexemes = (ps.take k).map lexeme)
    (hcut : ∀ q ∈ ps, q.Cut) (hapart : Apart ps)
    (hl : ((ps.take k).map lexeme).drop first = l :: after)
    (hs : Sighted wanted position l after e n) :
    ∃ t span, ((ps.take k).drop first).take (n + 1) = .tag t :: span ∧ Span t span ∧
      t.name = e.name := by
  have hsplit : (scan (writeAll ps)).lexemes =
      ((ps.take k).map lexeme).take first ++ l :: after := by
    rw [hread, ← hl, List.take_append_drop]
  rw [scan, tokens_writeAll hcut hapart] at hsplit
  rw [← List.map_drop] at hl
  obtain ⟨q, qs, hq, rfl, rfl⟩ := List.map_eq_cons_iff.mp hl
  rw [hq, List.take_succ_cons]
  rcases hs.opened with ⟨attributes, hopening, hspan⟩ | ⟨attributes, hempty, rfl⟩
  · -- The tag that closes the element has its name, as the tags up to there fit.
    obtain ⟨as, tail, rfl⟩ := eq_opening hopening
    obtain ⟨openNames, rest, -, hnested⟩ := exists_nested_of_append hsplit
    obtain ⟨more, rfl⟩ : (Part.tag ⟨.opening as, e.name, tail⟩ :: qs).map lexeme <+: rest :=
      List.map_cons ▸ hnested ▸ nested_prefix _ _ _
    obtain ⟨between, raw', after', -, htake, hnone, -⟩ := exists_between hspan hnested
    rw [← List.map_take] at htake
    obtain ⟨mid, last, hmid, rfl, hlast⟩ := List.map_eq_append_iff.mp htake
    obtain ⟨q, rfl, hclosing⟩ := List.map_eq_singleton_iff.mp hlast
    obtain ⟨tail', rfl⟩ := eq_closing (congrArg Lexeme.token hclosing)
    rw [hmid]
    exact ⟨_, _, rfl, .opened as e.name tail tail' hnone, rfl⟩
  · obtain ⟨as, tail, rfl⟩ := eq_empty hempty
    exact ⟨_, _, rfl, .empty as e.name tail, rfl⟩

/-- An element that is found in a document, and the one that is found where names have changed. -/
theorem exists_cutAt {g : Part → Part}
    (hread : (scan (writeAll ps)).lexemes = (ps.take k).map lexeme)
    (he : Corresponds f wanted 0 0 ((ps.take k).map lexeme) (((ps'.map g).take k).map lexeme) e e')
    (h : List.Forall₂ Restates ps ps') (hapart : Apart ps) :
    ∃ before before' t span span', CutAt ps e before (.tag t :: span) ∧
      CutAt (ps'.map g) e' (before'.map g) (span'.map g) ∧ List.Forall₂ Restates before before' ∧
      List.Forall₂ Restates (.tag t :: span) span' ∧ Span t span ∧ t.name = wanted ∧
      e.name = wanted := by
  obtain ⟨-, first, n, l, after, l', after', hl, hl', hs, hs'⟩ := he
  have hfits := (fits_of_restates h).1
  have hcut := cutAt_of_sighted hl hs
  have hcut' := cutAt_of_sighted hl' hs'
  have hwhole := List.forall₂_take (n + 1) (List.forall₂_drop first (List.forall₂_take k h))
  obtain ⟨t, span, hsplit, hspan, hname⟩ :=
    exists_span hread (fun q hq => (hfits q hq).plain.cut) hapart hl hs
  rw [hsplit] at hcut hwhole
  rw [← List.map_take, ← List.map_take, ← List.map_drop, ← List.map_take] at hcut'
  have htag : Tag.Fits t := (fits_of_restates hwhole).1 _ List.mem_cons_self
  have hwanted : t.name = wanted := by
    rw [← hs.localName_eq, ← hname, localName_of_fits htag.name]
  exact ⟨_, _, t, span, _, hcut, hcut', List.forall₂_take first (List.forall₂_take k h), hwhole,
    hspan, hwanted, hname.symm.trans hwanted⟩

/-- Behind a mark, an element is cut out with the three bytes before it. -/
theorem CutAt.fragment?_marked {before span : List Part} (h : CutAt ps e before span)
    {x : List Char} (hx : Shortened e.raw x) :
    Document.fragment? ⟨true, writeAll ps⟩ e.position e.raw =
      (decode? (bytesBefore (writeAll before))).map (· ++ x) := by
  obtain ⟨after, rfl⟩ := h.exists_after
  rw [h.position_eq, writeAll_append, writeAll_append, ← h.raw_eq]
  exact Xml.fragment?_marked hx _ _

/-- What is left of an element is read alike behind the bytes before it. -/
theorem ofFragment?_before {before before' : List Part}
    (h : List.Forall₂ Restates before before') (hp : Qualifier p) {x x' : List Char}
    (hx' : x'.head? = some '<') (hcropped : Cropped x (unqualified x')) :
    ((decode? (bytesBefore (writeAll (before'.map (rename (qualify p)))))).bind fun w =>
      Node.ofFragment? (unqualified (w ++ x'))).map Node.normal =
    ((decode? (bytesBefore (writeAll before))).bind fun w =>
      Node.ofFragment? (w ++ x)).map Node.normal := by
  have hbracket : ∀ c, x'.head? = some c → c = '<' := by
    intro c hc
    rw [hx'] at hc
    exact (Option.some.inj hc).symm
  rcases bytesBefore_cases h hp with ⟨hsame, hnone⟩ | ⟨hends', hends⟩
  · rw [hsame]
    cases hw : decode? (bytesBefore (writeAll before)) with
    | none => rfl
    | some w =>
        rw [Option.bind_some, Option.bind_some, unqualified_append (hnone w hw)
          (length_of_decode?_bytesBefore hw) hbracket]
        exact hcropped.ofFragment?_text (hnone w hw)
  · have hleft : ((decode? (bytesBefore (writeAll before))).bind fun w =>
        Node.ofFragment? (w ++ x)) = none := by
      rw [Option.bind_eq_none_iff]
      intro w hw
      rcases hends w hw with ⟨hopen, hclose⟩ | ⟨t, as, ht, hform, rfl⟩
      · exact ofFragment?_of_bracket hopen hclose hcropped.head hcropped.opens
      · exact ofFragment?_of_tag ht hform hcropped.unclosed
    have hright : ((decode? (bytesBefore (writeAll (before'.map (rename (qualify p)))))).bind
        fun w => Node.ofFragment? (unqualified (w ++ x'))) = none := by
      rw [Option.bind_eq_none_iff]
      intro w hw
      obtain ⟨hopen, hclose⟩ := hends' w hw
      rw [unqualified_append hopen (length_of_decode?_bytesBefore hw) hbracket]
      exact ofFragment?_of_bracket hopen hclose hcropped.head' hcropped.opens'
    rw [hleft, hright]

end Holdings.Xml.Part
