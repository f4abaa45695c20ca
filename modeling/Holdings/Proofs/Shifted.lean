import Holdings.Proofs.Mark
import Holdings.Proofs.Qualifiers
import Holdings.Proofs.Renaming
/-!
# Fragments that come three bytes early

Behind a byte order mark an element is cut out with the three bytes before it and without its own
last three (`fragment?_marked`). What comes before it is the end of a text, or it shows the end of a
tag, and then the fragment cannot be read (`ofFragment?_of_bracket`, `ofFragment?_of_tag`). Of the
element itself the last tag is missing or has another name, if its qualifier is taken out or not
(`Cropped.of_empty`, `Cropped.of_opening`).
-/

namespace Holdings

namespace Text.Utf8

theorem whole_append (ps qs : List (Option Char)) :
    whole (ps ++ qs) = (whole ps).bind fun s => (whole qs).map (s ++ ·) := by
  induction ps with
  | nil =>
      rw [List.nil_append, whole, Option.bind_some]
      cases whole qs <;> rfl
  | cons p ps ih =>
      cases p with
      | none => rfl
      | some c =>
          rw [List.cons_append, whole, whole, ih]
          cases whole ps with
          | none => rfl
          | some s => cases whole qs <;> rfl

theorem encodeChar_of_ascii {c : Char} (hc : c.toNat ≤ 0x7F) :
    String.utf8EncodeChar c = [UInt8.ofNat c.toNat] := by
  have hval : c.val.toNat = c.toNat := rfl
  simp only [String.utf8EncodeChar, hval]
  exact if_pos hc

theorem size_cons_of_ascii {c : Char} (hc : c.toNat ≤ 0x7F) (s : List Char) :
    size (c :: s) = size s + 1 := by
  rw [size, encode_cons, encodeChar_of_ascii hc]
  rfl

theorem size_of_ascii {s : List Char} (h : ∀ c ∈ s, c.toNat ≤ 0x7F) : size s = s.length := by
  induction s with
  | nil => rfl
  | cons c s ih =>
      obtain ⟨hc, hs⟩ := List.forall_mem_cons.mp h
      rw [size_cons_of_ascii hc, ih hs, List.length_cons]

/-- A text that starts with a character of one byte is read apart from the bytes before it. -/
theorem decode?_append_encode {c : Char} (hc : c.toNat ≤ 0x7F) (bs : List UInt8)
    (s : List Char) : decode? (bs ++ encode (c :: s)) = (decode? bs).map (· ++ c :: s) := by
  have hself : decode? (encode (c :: s)) = some (c :: s) := decode?_eq_some_iff.mpr rfl
  have hlow : (UInt8.ofNat c.toNat).toNat ≤ 0x7F := by
    rw [toNat_ofNat (by omega)]
    exact hc
  rw [encode_cons, encodeChar_of_ascii hc, List.singleton_append] at hself ⊢
  rw [decode?] at hself
  rw [decode?, pieces_append hlow, whole_append, hself, decode?]
  cases whole (pieces bs) <;> rfl

end Text.Utf8

namespace Xml

open Text.Utf8 (encode decode? size)

/-- The last three bytes before a place behind a mark, where the text before it is `before`. -/
def bytesBefore (before : List Char) : List UInt8 :=
  (encode (mark :: before)).drop (size before)

theorem length_encode_mark (s : List Char) : (encode (mark :: s)).length = 3 + size s :=
  Text.Utf8.size_append [mark] s

theorem length_bytesBefore (before : List Char) : (bytesBefore before).length = 3 := by
  rw [bytesBefore, List.length_drop, length_encode_mark]
  omega

/-- What is left of the characters of an element without its last three bytes. -/
structure Shortened (raw x : List Char) : Prop where
  head : x.head? = some '<'
  exists_rest : ∃ y, raw = x ++ y ∧ size y = 3

/-- Names of which three bytes from the end of a tag are whole characters. -/
structure Croppable (name : List Char) : Prop where
  length : 2 ≤ name.length
  ascii : ∀ c ∈ name, c.toNat ≤ 0x7F

/-- Behind a mark, an element is cut out with the three bytes before it and without its last. -/
theorem fragment?_marked {raw x : List Char} (h : Shortened raw x) (before after : List Char) :
    Document.fragment? ⟨true, before ++ (raw ++ after)⟩ (size before) raw =
      (decode? (bytesBefore before)).map (· ++ x) := by
  obtain ⟨y, rfl, hy⟩ := h.exists_rest
  obtain ⟨x, rfl⟩ := List.head?_eq_some_iff.mp h.head
  have hsplit : encode (mark :: (before ++ (('<' :: x) ++ y ++ after))) =
      encode (mark :: before) ++ (encode ('<' :: x) ++ encode (y ++ after)) := by
    rw [← Text.Utf8.encode_append, ← Text.Utf8.encode_append]
    simp
  have hle : size before ≤ (encode (mark :: before)).length := by
    rw [length_encode_mark]
    omega
  have hlength : (bytesBefore before ++ encode ('<' :: x)).length = size (('<' :: x) ++ y) := by
    rw [List.length_append, length_bytesBefore, Text.Utf8.size_append, hy, Nat.add_comm]
    rfl
  rw [Document.fragment?, if_pos rfl, hsplit]
  dsimp only
  rw [List.drop_append_of_le_length hle, ← bytesBefore, ← List.append_assoc,
    List.take_left' hlength, Text.Utf8.decode?_append_encode (by decide)]

/-- After a text of three bytes it does not count what stands before it. -/
theorem bytesBefore_append {s : List Char} (h : 3 ≤ size s) (front : List Char) :
    bytesBefore (front ++ s) = (encode s).drop (size s - 3) := by
  have hsplit : encode (mark :: (front ++ s)) = encode (mark :: front) ++ encode s := by
    rw [← Text.Utf8.encode_append, List.cons_append]
  have hdrop : size front + size s = (encode (mark :: front)).length + (size s - 3) := by
    rw [length_encode_mark]
    omega
  rw [bytesBefore, hsplit, Text.Utf8.size_append, hdrop, List.drop_append]
  simp

/-- What shows of a tag and a short text after it: its bracket with no other one, or all of it. -/
theorem decode?_bytesBefore_tag {front u s w : List Char} (hu : '<' ∉ u) (hne : u ≠ [])
    (hs : '<' ∉ s) (hsize : size s ≤ 2)
    (hw : decode? (bytesBefore (front ++ '<' :: (u ++ '>' :: s))) = some w) :
    '<' ∉ w ∧ '>' ∈ w ∨ w = '<' :: (u ++ ['>']) ∧ u.length = 1 := by
  have hposition : size (front ++ '<' :: (u ++ '>' :: s)) =
      size (front ++ '<' :: u) + (size s + 1) := by
    rw [← Text.Utf8.size_cons_of_ascii (c := '>') (by decide), ← Text.Utf8.size_append]
    simp
  have hsplit : encode (mark :: (front ++ '<' :: (u ++ '>' :: s))) =
      encode (mark :: (front ++ '<' :: u)) ++ encode ('>' :: s) := by
    rw [← Text.Utf8.encode_append]
    simp
  have hlength := length_encode_mark (front ++ '<' :: u)
  rw [bytesBefore, hsplit, hposition, List.drop_append_of_le_length (by omega),
    Text.Utf8.decode?_append_encode (by decide)] at hw
  obtain ⟨v, hv, rfl⟩ := Option.map_eq_some_iff.mp hw
  have hv' := Text.Utf8.decode?_eq_some_iff.mp hv
  by_cases hmem : '<' ∈ v
  · -- The bracket that begins the tag shows too, so the tag has no more than three bytes.
    have hbytes : (60 : UInt8) ∈
        (encode (mark :: (front ++ '<' :: u))).drop (size (front ++ '<' :: u) + (size s + 1)) :=
      hv' ▸ List.mem_flatMap.mpr ⟨'<', hmem, by decide⟩
    have hfront : encode (mark :: (front ++ '<' :: u)) = encode (mark :: front) ++ 60 :: encode u :=
      Text.Utf8.encode_append (mark :: front) ('<' :: u)
    have hsum : size (front ++ '<' :: u) = size front + (size u + 1) := by
      rw [Text.Utf8.size_append, Text.Utf8.size_cons_of_ascii (by decide)]
    have hmark := length_encode_mark front
    have hpos : 1 ≤ size u :=
      Nat.le_trans (List.length_pos_iff.mpr hne) (Text.Utf8.length_le_size u)
    have hshort : size u + size s < 2 := by
      by_contra hlong
      have hdrop : size (front ++ '<' :: u) + (size s + 1) =
          (encode (mark :: front)).length + (size u + size s - 2 + 1) := by omega
      rw [hfront, hdrop, List.drop_length_add_append, List.drop_succ_cons] at hbytes
      obtain ⟨c, hc, hnumber⟩ :=
        Text.Utf8.mem_encode_ascii (by decide) (List.mem_of_mem_drop hbytes)
      have hbracket : c = '<' := Char.toNat_inj.mp hnumber
      exact hu (hbracket ▸ hc)
    have hempty : s = [] := by
      have := Text.Utf8.length_le_size s
      exact List.eq_nil_of_length_eq_zero (by omega)
    have hwhole : encode v = encode ('<' :: u) := by
      have hdrop : size (front ++ '<' :: u) + (size s + 1) = (encode (mark :: front)).length := by
        omega
      rw [← hv', hfront, hdrop, List.drop_left]
      rfl
    have hu1 := Text.Utf8.length_le_size u
    have hu0 := List.length_pos_iff.mpr hne
    refine .inr ⟨?_, by omega⟩
    have hvu : v = '<' :: u := by
      have hself := Text.Utf8.decodeLenient_encode v
      rw [hwhole, Text.Utf8.decodeLenient_encode] at hself
      exact hself.symm
    rw [hvu, hempty, List.cons_append]
  · refine .inl ⟨?_, by simp⟩
    simp [hmem, hs]

theorem length_of_decode?_bytesBefore {before w : List Char}
    (hw : decode? (bytesBefore before) = some w) : w.length ≤ 3 := by
  have hsize : size w = (bytesBefore before).length :=
    congrArg List.length (Text.Utf8.decode?_eq_some_iff.mp hw).symm
  rw [length_bytesBefore] at hsize
  exact hsize ▸ Text.Utf8.length_le_size w

/-- No bracket shows that is in neither text. -/
theorem not_mem_of_decode? {bs : List UInt8} {s w : List Char} (hs : '<' ∉ s)
    (hbs : bs <:+ encode s) (hw : decode? bs = some w) : '<' ∉ w := by
  intro hmem
  have hbyte : (60 : UInt8) ∈ encode w := List.mem_flatMap.mpr ⟨'<', hmem, by decide⟩
  rw [← Text.Utf8.decode?_eq_some_iff.mp hw] at hbyte
  obtain ⟨c, hc, hnumber⟩ := Text.Utf8.mem_encode_ascii (by decide) (hbs.subset hbyte)
  have hbracket : c = '<' := Char.toNat_inj.mp hnumber
  exact hs (hbracket ▸ hc)

namespace Tag

/-- A tag between its brackets. -/
theorem exists_write_eq {t : Tag} (h : t.Cut) :
    ∃ u, t.write = '<' :: (u ++ ['>']) ∧ '<' ∉ u ∧ t.name.length ≤ u.length ∧
      (u.length = 1 → ∃ as, t.form = .opening as) := by
  obtain ⟨form, name, tail⟩ := t
  obtain ⟨hname, has, htail⟩ := h
  have hpos : 0 < name.length := List.length_pos_iff.mpr hname.ne
  have hmem : '<' ∉ name := hname.not_mem rfl
  have htail' : '<' ∉ tail := fun hc => by cases htail _ hc
  cases form with
  | opening as =>
      have has' : '<' ∉ Attribute.writeAll as := Attribute.not_mem_writeAll has
      refine ⟨name ++ (Attribute.writeAll as ++ tail), ?_, ?_, ?_, fun _ => ⟨as, rfl⟩⟩
      · simp [write, Form.front, Form.back, Form.attributes]
      · simp [hmem, has', htail']
      · simp
  | empty as =>
      have has' : '<' ∉ Attribute.writeAll as := Attribute.not_mem_writeAll has
      refine ⟨name ++ (Attribute.writeAll as ++ (tail ++ ['/'])), ?_, ?_, ?_, fun hlength => ?_⟩
      · simp [write, Form.front, Form.back, Form.attributes]
      · simp [hmem, has', htail']
      · simp
      · simp only [List.length_append, List.length_singleton] at hlength
        omega
  | closing =>
      refine ⟨'/' :: (name ++ tail), ?_, ?_, ?_, fun hlength => ?_⟩
      · simp [write, Form.front, Form.back, Form.attributes, Attribute.writeAll]
      · simp [hmem, htail']
      · simp
        omega
      · simp only [List.length_cons, List.length_append] at hlength
        omega

/-- What shows of a tag with a short text after it: no bracket that opens it, or all of it. -/
theorem decode?_bytesBefore {t : Tag} (h : t.Cut) {front s w : List Char} (hs : '<' ∉ s)
    (hsize : size s ≤ 2) (hw : decode? (bytesBefore (front ++ (t.write ++ s))) = some w) :
    '<' ∉ w ∧ '>' ∈ w ∨ (∃ as, t.form = .opening as) ∧ t.name.length ≤ 1 ∧ w = t.write := by
  obtain ⟨u, hwrite, hu, hlength, hform⟩ := exists_write_eq h
  have hne : u ≠ [] := by
    have hpos := List.length_pos_iff.mpr h.name.ne
    exact List.length_pos_iff.mp (by omega)
  have hshape : front ++ (t.write ++ s) = front ++ '<' :: (u ++ '>' :: s) := by
    simp [hwrite]
  rw [hshape] at hw
  rcases decode?_bytesBefore_tag hu hne hs hsize hw with hbracket | ⟨hall, hone⟩
  · exact .inl hbracket
  · exact .inr ⟨hform hone, hone ▸ hlength, hall.trans hwrite.symm⟩

end Tag

/-- Some characters that are no tag stay, and what comes after them loses its qualifiers. -/
theorem unqualified_append {w x : List Char} (hw : '<' ∉ w) (hlength : w.length ≤ 3)
    (hx : ∀ c, x.head? = some c → c = '<') : unqualified (w ++ x) = w ++ unqualified x := by
  have hundeclaring : Undeclaring w := by
    intro b _ hinside
    have hle := hinside.length_le
    rw [List.length_cons] at hle
    have : "xmlns".toList.length = 5 := rfl
    omega
  have hnext : ∀ c, x.head? = some c → Text.isBlank c = false ∧ c ∉ "xmlns".toList := by
    intro c hc
    rw [hx c hc]
    decide
  rw [unqualified, withoutDeclarations_undeclaring hundeclaring hnext,
    withoutQualifiers_of_not_mem hw, unqualified]

/-! ## Fragments that start in another tag -/

/-- What is read first of some characters is a tag that opens an element, if anything is. -/
def OpensFirst (x : List Char) : Prop :=
  (scan x).lexemes = [] ∨
    ∃ name attributes raw ls, (scan x).lexemes = ⟨.opening name attributes, raw⟩ :: ls

/-- Where the end of another tag shows, it is text. -/
theorem ofFragment?_of_bracket {w x : List Char} (hw : '<' ∉ w) (hmem : '>' ∈ w)
    (hx : ∀ c, x.head? = some c → c = '<') (h : OpensFirst x) :
    Node.ofFragment? (w ++ x) = none := by
  obtain ⟨w', hsub, hscan⟩ := exists_scan_of_text hw
  have hblank : skipBlanks w' ≠ [] := by
    intro hnil
    have hspacing := List.dropWhile_eq_nil_iff.mp hnil '>' (hsub _ hmem (by decide))
    cases hspacing
  have htext : ∃ content, textOf (Outline.pieces w') = [.text content] := by
    rw [Outline.textOf_pieces, Outline.textEvents, if_neg hblank]
    exact ⟨_, rfl⟩
  obtain ⟨content, htext⟩ := htext
  have hevents : eventsFrom [] (scan (Document.ofChars (w ++ x)).text).lexemes =
      eventsFrom (Outline.pieces w') (scan x).lexemes := by
    rw [hscan x hx]
    exact Outline.eventsFrom_textLexemes w' _
  rw [Node.ofFragment?, hevents]
  rcases h with hnone | ⟨name, attributes, raw, ls, hls⟩
  · rw [hnone, eventsFrom, htext]
  · rw [hls, eventsFrom]
    dsimp only
    rw [htext]
    rfl

/-- Where all of another tag shows, its element is not closed. -/
theorem ofFragment?_of_tag {t : Tag} {x : List Char} (ht : t.Cut) {as : List Attribute}
    (hform : t.form = .opening as) (hspan : spanLength? 0 (tokens x).lexemes = none) :
    Node.ofFragment? (t.write ++ x) = none := by
  have hnested : spanLength? 0 (nested (tokens x).intact [t.name] (tokens x).lexemes).lexemes =
      none := by
    obtain ⟨more, hmore⟩ := nested_prefix (tokens x).intact [t.name] (tokens x).lexemes
    cases hshort : spanLength? 0 (nested (tokens x).intact [t.name] (tokens x).lexemes).lexemes with
    | none => rfl
    | some n =>
        rw [← hmore, (spanLength?_append hshort more).2] at hspan
        cases hspan
  have htoken : t.token = .opening t.name t.attributes := by rw [Tag.token, hform]
  have hscan : (scan (t.write ++ x)).lexemes = ⟨.opening t.name t.attributes, t.write⟩ ::
      (nested (tokens x).intact [t.name] (tokens x).lexemes).lexemes := by
    rw [scan, Tag.tokens_write ht, htoken]
    rfl
  exact ofFragment?_of_unclosed (p := []) List.not_mem_nil
    (fun c hc => (Option.some.inj hc).symm) (.inr ⟨_, _, _, _, hscan, rfl, hnested⟩)

/-! ## Attributes without their last quote -/

theorem withoutDeclarations_nil : withoutDeclarations [] = [] := by
  rw [withoutDeclarations.eq_def]

theorem afterValue?_append {s rest : List Char} (h : afterValue? s = some rest) (more : List Char) :
    afterValue? (s ++ more) = some (rest ++ more) := by
  obtain ⟨s', hs', hrest⟩ := Option.bind_eq_some_iff.mp h
  have hafter : Text.after? ['=', '"'] (s ++ more) = some (s' ++ more) :=
    Text.after?_eq_some_iff.mpr (by rw [Text.after?_eq_some_iff.mp hs', List.append_assoc])
  cases hdrop : s'.dropWhile (· ≠ '"') with
  | nil =>
      rw [hdrop] at hrest
      cases hrest
  | cons c rest' =>
      rw [hdrop] at hrest
      obtain rfl := Option.some.inj hrest
      have hdrop' : (s' ++ more).dropWhile (· ≠ '"') = c :: (rest' ++ more) := by
        rw [List.dropWhile_append, hdrop]
        rfl
      rw [afterValue?, hafter, Option.bind_eq_bind, Option.bind_some, hdrop']

/-- A declaration stays one, whatever comes after it. -/
theorem afterDeclaration?_append {s rest more : List Char} (h : afterDeclaration? s = some rest)
    (hmore : ∀ c, more.head? = some c → Text.isWord c = false ∧ c ≠ ':') :
    afterDeclaration? (s ++ more) = some (rest ++ more) := by
  obtain ⟨s', hs', hvalue⟩ := Option.bind_eq_some_iff.mp h
  have hafter : Text.after? "xmlns".toList (s ++ more) = some (s' ++ more) :=
    Text.after?_eq_some_iff.mpr (by rw [Text.after?_eq_some_iff.mp hs', List.append_assoc])
  rw [afterDeclaration?, hafter, Option.bind_eq_bind, Option.bind_some, skipWord_append s' hmore]
  exact afterValue?_append hvalue more

namespace Attribute

variable {a : Attribute}

/-- The characters of an attribute before its last quote. -/
def unclosed (a : Attribute) : List Char :=
  a.lead ++ (a.name ++ (a.before ++ '=' :: (a.after ++ a.quote :: a.value)))

theorem write_eq_unclosed (a : Attribute) : a.write = a.unclosed ++ [a.quote] := by
  simp [write, body, unclosed]

/-- What is not closed is no declaration. -/
theorem Fits.withoutDeclarations_unclosed (h : a.Fits) :
    Xml.withoutDeclarations a.unclosed = a.unclosed := by
  have hquote : Text.isWord a.quote = false ∧ a.quote ≠ ':' := by
    rcases h.quote with hq | hq <;> rw [hq] <;> exact ⟨by decide +kernel, by decide⟩
  have hnone : Xml.afterDeclaration? (a.name ++ (a.before ++ '=' :: (a.after ++ a.quote ::
      (a.value ++ [])))) = none := by
    cases hfound : Xml.afterDeclaration? (a.name ++ (a.before ++ '=' :: (a.after ++ a.quote ::
        (a.value ++ [])))) with
    | none => rfl
    | some rest =>
        have hclosed := afterDeclaration?_append hfound (forall_head (s := []) hquote)
        have hwhole : a.name ++ (a.before ++ '=' :: (a.after ++ a.quote :: (a.value ++ []))) ++
            [a.quote] = a.name ++ a.behindName [] := by simp [behindName]
        rw [hwhole, h.afterDeclaration?] at hclosed
        split at hclosed
        · cases (List.append_eq_nil_iff.mp (Option.some.inj hclosed).symm).2
        · cases hclosed
  have hread := h.withoutDeclarations_of_none (fun c hc => by cases hc) hnone
  rwa [withoutDeclarations_nil, List.append_nil] at hread

end Attribute

/-! ## Empty tags without their end -/

theorem toNat_of_isSpacing {c : Char} (h : Text.isSpacing c = true) : c.toNat ≤ 0x7F := by
  simp only [Text.isSpacing, Bool.or_eq_true, decide_eq_true_eq] at h
  rcases h with ((rfl | rfl) | rfl) | rfl <;> decide

theorem withoutDeclarations_spacing {s : List Char} (h : ∀ c ∈ s, Text.isSpacing c = true) :
    withoutDeclarations s = s := by
  have hblanks := withoutDeclarations_blanks (Attribute.blank_of_spacing h) (u := [])
    (fun c hc => by cases hc) rfl
  rwa [withoutDeclarations_nil, List.append_nil] at hblanks

namespace Tag

variable {name tail p : List Char} {as : List Attribute}

/-- The characters of an empty tag between its bracket and its slash. -/
def inner (name : List Char) (as : List Attribute) (tail : List Char) : List Char :=
  name ++ (Attribute.writeAll as ++ tail)

theorem write_empty (name : List Char) (as : List Attribute) (tail : List Char) :
    (Tag.mk (.empty as) name tail).write = '<' :: (inner name as tail ++ ['/', '>']) := by
  simp [write, inner, Form.front, Form.back, Form.attributes]

/-- Without its last three characters, an empty tag is none. -/
theorem tokens_cropped (h : (Tag.mk (.empty as) name tail).Cut) :
    (tokens ('<' :: (inner name as tail).dropLast)).lexemes = [] := by
  have htokens := tokens_write h []
  rw [write_empty, tokens] at htokens
  refine tokens_of_cut_empty (congrArg Scan.lexemes htokens) rfl ?_ fun he => ?_
  · exact List.cons_prefix_cons.mpr ⟨rfl, (List.dropLast_prefix _).trans (List.prefix_append _ _)⟩
  · have hlength := congrArg List.length (List.cons.inj he).2
    rw [List.length_dropLast, List.length_append] at hlength
    simp only [List.length_cons, List.length_nil] at hlength
    omega

theorem dropLast_inner_concat (name : List Char) (as : List Attribute) (tail : List Char)
    (c : Char) : (inner name as (tail ++ [c])).dropLast = inner name as tail := by
  rw [inner, ← List.append_assoc, ← List.append_assoc, List.dropLast_concat, List.append_assoc,
    inner]

theorem dropLast_inner_attribute (name : List Char) (as : List Attribute) (a : Attribute) :
    (inner name (as ++ [a]) []).dropLast = inner name as a.unclosed := by
  have hsplit : inner name (as ++ [a]) [] = inner name as (a.unclosed ++ [a.quote]) := by
    simp [inner, Attribute.writeAll, Attribute.write_eq_unclosed]
  rw [hsplit, dropLast_inner_concat]

/-- Of what is left of a tag, the qualifier and the declarations are taken out. -/
theorem unqualified_inner (hp : Qualifier p) (hname : ∀ c ∈ name, Text.isBlank c = false)
    (hbracket : '<' ∉ name) (has : ∀ a ∈ as, a.Fits) {rest : List Char} (hrest : '<' ∉ rest)
    (hstays : withoutDeclarations rest = rest) :
    unqualified ('<' :: inner (qualify p name) as rest) =
      '<' :: inner name (Attribute.undeclared as) rest := by
  have hqualified : ∀ c ∈ qualify p name, Text.isBlank c = false := by
    intro c hc
    rcases List.mem_append.mp hc with hc | hc
    · exact not_isBlank_of_isQualifierChar (hp.chars c hc)
    · rcases List.mem_cons.mp hc with rfl | hc
      · rfl
      · exact hname c hc
  have hundeclared : ∀ a ∈ Attribute.undeclared as, a.Fits :=
    fun a ha => has a (List.mem_filter.mp ha).1
  have hbehind : '<' ∉ inner name (Attribute.undeclared as) rest := by
    simp [inner, hbracket, hrest, Attribute.not_mem_writeAll hundeclared]
  have hshape : '<' :: inner (qualify p name) (Attribute.undeclared as) rest =
      '<' :: ([] ++ (p ++ ':' :: (inner name (Attribute.undeclared as) rest))) := by
    simp [inner, qualify]
  have hend : withoutQualifiers (inner name (Attribute.undeclared as) rest) =
      inner name (Attribute.undeclared as) rest := by
    have hall := withoutQualifiers_of_not_mem hbehind []
    rwa [withoutQualifiers, List.append_nil] at hall
  rw [unqualified, withoutDeclarations_cons rfl, inner, withoutDeclarations_free hqualified,
    Attribute.withoutDeclarations_writeAll has, hstays, ← inner, hshape,
    hp.withoutQualifiers (.inl rfl), hend, List.nil_append]

/-- The qualifier is taken out of what is left of a tag, and declarations, but for one that is not
closed. -/
theorem exists_unqualified_cropped (h : (Tag.mk (.empty as) name tail).Cut)
    (hfree : ∀ c ∈ name, Text.isBlank c = false) (hp : Qualifier p) :
    ∃ bs, (∀ a ∈ bs, a.Fits) ∧
      unqualified ('<' :: (inner (qualify p name) as tail).dropLast) =
        '<' :: (inner name bs tail).dropLast := by
  obtain ⟨hname, has, htail⟩ := h
  have hbracket : '<' ∉ name := hname.not_mem rfl
  rcases List.eq_nil_or_concat tail with rfl | ⟨tail, c, rfl⟩
  · rcases List.eq_nil_or_concat as with rfl | ⟨as, a, rfl⟩
    · obtain ⟨n, d, rfl⟩ := (List.eq_nil_or_concat name).resolve_left hname.ne
      rw [List.concat_eq_append] at hfree hbracket ⊢
      have hcropped : ∀ n : List Char, (inner (n ++ [d]) [] []).dropLast = inner n [] [] := by
        intro n
        simp [inner, Attribute.writeAll]
      have hqualify : qualify p (n ++ [d]) = qualify p n ++ [d] := by simp [qualify]
      refine ⟨[], List.forall_mem_nil _, ?_⟩
      rw [hqualify, hcropped, hcropped]
      exact unqualified_inner hp (fun c hc => hfree c (List.mem_append_left _ hc))
        (fun hc => hbracket (List.mem_append_left _ hc)) (List.forall_mem_nil _)
        List.not_mem_nil withoutDeclarations_nil
    · rw [List.concat_eq_append] at has ⊢
      have ha : a.Fits := has a (List.mem_append_right as List.mem_cons_self)
      have hfits : ∀ b ∈ as, b.Fits := fun b hb => has b (List.mem_append_left _ hb)
      refine ⟨Attribute.undeclared as ++ [a], ?_, ?_⟩
      · intro b hb
        rcases List.mem_append.mp hb with hb | hb
        · exact hfits b (List.mem_filter.mp hb).1
        · exact List.mem_singleton.mp hb ▸ ha
      · rw [dropLast_inner_attribute, dropLast_inner_attribute]
        refine unqualified_inner hp hfree hbracket hfits ?_ ha.withoutDeclarations_unclosed
        have hwrite := Attribute.not_mem_writeAll (List.forall_mem_singleton.mpr ha)
        rw [Attribute.writeAll, List.flatMap_singleton, Attribute.write_eq_unclosed] at hwrite
        exact fun hc => hwrite (List.mem_append_left _ hc)
  · rw [List.concat_eq_append] at htail ⊢
    refine ⟨Attribute.undeclared as, fun a ha => has a (List.mem_filter.mp ha).1, ?_⟩
    have hspacing : ∀ c ∈ tail, Text.isSpacing c = true :=
      fun c hc => htail c (List.mem_append_left _ hc)
    rw [dropLast_inner_concat, dropLast_inner_concat]
    exact unqualified_inner hp hfree hbracket has (fun hc => by cases hspacing _ hc)
      (withoutDeclarations_spacing hspacing)

/-- The last character before the slash of an empty tag has one byte. -/
theorem exists_inner_eq (h : (Tag.mk (.empty as) name tail).Cut)
    (hascii : ∀ c, name.getLast? = some c → c.toNat ≤ 0x7F) :
    ∃ c, c.toNat ≤ 0x7F ∧ inner name as tail = (inner name as tail).dropLast ++ [c] := by
  have hne : inner name as tail ≠ [] := by
    simp [inner, h.name.ne]
  obtain ⟨s, c, hs⟩ := (List.eq_nil_or_concat (inner name as tail)).resolve_left hne
  rw [List.concat_eq_append] at hs
  refine ⟨c, ?_, by rw [hs, List.dropLast_concat]⟩
  have hlast : (inner name as tail).getLast? = some c := by rw [hs, List.getLast?_concat]
  rw [inner, List.getLast?_append] at hlast
  cases hend : (Attribute.writeAll as ++ tail).getLast? with
  | some d =>
      rw [hend, Option.some_or] at hlast
      obtain rfl := Option.some.inj hlast
      rcases Attribute.getLast?_writeAll h.attributes h.tail hend with hc | rfl | rfl
      · exact toNat_of_isSpacing hc
      · decide
      · decide
  | none =>
      rw [hend, Option.none_or] at hlast
      exact hascii c hlast

theorem shortened_empty (h : (Tag.mk (.empty as) name tail).Cut)
    (hascii : ∀ c, name.getLast? = some c → c.toNat ≤ 0x7F) :
    Shortened (Tag.mk (.empty as) name tail).write ('<' :: (inner name as tail).dropLast) := by
  obtain ⟨c, hc, hinner⟩ := exists_inner_eq h hascii
  refine ⟨rfl, [c, '/', '>'], ?_, ?_⟩
  · rw [write_empty, hinner]
    simp
  · rw [Text.Utf8.size_cons_of_ascii hc]
    rfl

/-! ## Closing tags without their end -/

theorem write_closing (name tail : List Char) :
    (Tag.mk .closing name tail).write = '<' :: '/' :: (name ++ (tail ++ ['>'])) := by
  simp [write, Form.front, Form.back, Form.attributes, Attribute.writeAll]

/-- The last three characters of a closing tag have one byte each. -/
theorem exists_cropped_closing (hname : Croppable name)
    (htail : ∀ c ∈ tail, Text.isSpacing c = true) :
    ∃ i j y, name ++ (tail ++ ['>']) = (name.take i ++ tail.take j) ++ y ∧ size y = 3 := by
  have hall : ∀ c ∈ name ++ (tail ++ ['>']), c.toNat ≤ 0x7F := by
    intro c hc
    rcases List.mem_append.mp hc with hc | hc
    · exact hname.ascii c hc
    · rcases List.mem_append.mp hc with hc | hc
      · exact toNat_of_isSpacing (htail c hc)
      · rw [List.mem_singleton.mp hc]
        decide
  have hlength := hname.length
  have htake : (name ++ (tail ++ ['>'])).take (name.length + tail.length - 2) =
      name.take (name.length + tail.length - 2) ++ tail.take (tail.length - 2) := by
    have hcount : name.length + tail.length - 2 - name.length = tail.length - 2 := by omega
    rw [List.take_append, hcount, List.take_append_of_le_length (Nat.sub_le _ _)]
  refine ⟨name.length + tail.length - 2, tail.length - 2,
    (name ++ (tail ++ ['>'])).drop (name.length + tail.length - 2), ?_, ?_⟩
  · rw [← htake, List.take_append_drop]
  · rw [Text.Utf8.size_of_ascii fun c hc => hall c (List.mem_of_mem_drop hc), List.length_drop]
    simp
    omega

/-- Of what is left of a closing tag, the qualifier is taken out. -/
theorem unqualified_closing (hp : Qualifier p) (hname : TagName name)
    (hfree : ∀ c ∈ name, Text.isBlank c = false) (htail : ∀ c ∈ tail, Text.isSpacing c = true)
    (i j : Nat) :
    unqualified ('<' :: '/' :: qualify p (name.take i ++ tail.take j)) =
      '<' :: '/' :: (name.take i ++ tail.take j) := by
  have hfront : ∀ c ∈ '<' :: '/' :: qualify p (name.take i), Text.isBlank c = false := by
    intro c hc
    rcases List.mem_cons.mp hc with rfl | hc
    · rfl
    rcases List.mem_cons.mp hc with rfl | hc
    · rfl
    rcases List.mem_append.mp hc with hc | hc
    · exact not_isBlank_of_isQualifierChar (hp.chars c hc)
    rcases List.mem_cons.mp hc with rfl | hc
    · rfl
    · exact hfree c (List.mem_of_mem_take hc)
  have hspacing : ∀ c ∈ tail.take j, Text.isSpacing c = true :=
    fun c hc => htail c (List.mem_of_mem_take hc)
  have hbehind : '<' ∉ name.take i ++ tail.take j := by
    intro hc
    rcases List.mem_append.mp hc with hc | hc
    · exact hname.not_mem (c := '<') rfl (List.mem_of_mem_take hc)
    · cases hspacing _ hc
  have hend : withoutQualifiers (name.take i ++ tail.take j) = name.take i ++ tail.take j := by
    have hall := withoutQualifiers_of_not_mem hbehind []
    rwa [withoutQualifiers, List.append_nil] at hall
  have hshape : '<' :: '/' :: qualify p (name.take i ++ tail.take j) =
      ('<' :: '/' :: qualify p (name.take i)) ++ tail.take j := by simp [qualify]
  have hshape' : ('<' :: '/' :: qualify p (name.take i)) ++ tail.take j =
      '<' :: (['/'] ++ (p ++ ':' :: (name.take i ++ tail.take j))) := by simp [qualify]
  rw [unqualified, hshape, withoutDeclarations_free hfront, withoutDeclarations_spacing hspacing,
    hshape', hp.withoutQualifiers (.inr rfl), hend, List.singleton_append]

/-- What is left of a closing tag closes an element, be it the right one or not. -/
theorem tokens_closing {body : List Char} (hbody : '>' ∉ body) :
    tokens ('<' :: '/' :: body) =
      ⟨[⟨.closing (closingName body), '<' :: '/' :: body⟩], true⟩ := by
  have hmarkup : markup? ('/' :: body ++ []) =
      some (.closing (closingName body), ('/' :: body).length) := by
    rw [List.append_nil, markup?_slash, upToBracket_of_not_mem hbody]
    rfl
  have hread := tokens_markup (List.cons_ne_nil _ _) hmarkup
  rw [List.append_nil, tokens] at hread
  exact hread

end Tag

/-! ## Fragments without their end -/

/-- What is left of a fragment without its last three bytes, in two documents of which the second
has lost its qualifiers. Both start with a tag, and the element is not closed twice. -/
structure Cropped (x x' : List Char) : Prop where
  head : ∀ c, x.head? = some c → c = '<'
  head' : ∀ c, x'.head? = some c → c = '<'
  opens : OpensFirst x
  unclosed : spanLength? 0 (tokens x).lexemes = none
  alike : List.Forall₂ (Lexeme.Alike id) (scan x).lexemes (scan x').lexemes

namespace Cropped

variable {x x' w : List Char}

theorem opens' (h : Cropped x x') : OpensFirst x' := by
  have halike := h.alike
  rcases h.opens with hnone | ⟨name, attributes, raw, ls, hls⟩
  · rw [hnone] at halike
    exact .inl (List.forall₂_nil_left_iff.mp halike)
  · rw [hls] at halike
    obtain ⟨⟨token, raw'⟩, ls', hl, -, hls'⟩ := List.forall₂_cons_left_iff.mp halike
    cases hl with
    | opening _ _ => exact .inr ⟨_, _, _, _, hls'⟩

/-- With the same text before them, they are read as the same tree. -/
theorem ofFragment?_text (h : Cropped x x') (hw : '<' ∉ w) :
    (Node.ofFragment? (w ++ x')).map Node.normal = (Node.ofFragment? (w ++ x)).map Node.normal := by
  obtain ⟨w', -, hscan⟩ := exists_scan_of_text hw
  refine ofFragment?_normal ?_
  rw [hscan x h.head, hscan x' h.head']
  refine List.rel_append (List.forall₂_same.mpr fun l hl => ?_) h.alike
  rw [Outline.textLexemes] at hl
  split at hl
  · cases hl
  · rw [List.mem_singleton.mp hl]
    exact .text w'

/-- What is left of an empty tag is nothing. -/
theorem of_empty {name tail : List Char} {as bs : List Attribute}
    (h : (Tag.mk (.empty as) name tail).Cut) (h' : (Tag.mk (.empty bs) name tail).Cut) :
    Cropped ('<' :: (Tag.inner name as tail).dropLast)
      ('<' :: (Tag.inner name bs tail).dropLast) := by
  have hlexemes := Tag.tokens_cropped h
  have hscan : ∀ x : List Char, (tokens x).lexemes = [] → (scan x).lexemes = [] := by
    intro x hx
    rw [scan, hx]
    rfl
  refine ⟨fun c hc => (Option.some.inj hc).symm, fun c hc => (Option.some.inj hc).symm,
    .inl (hscan _ hlexemes), by rw [hlexemes]; rfl, ?_⟩
  rw [hscan _ hlexemes, hscan _ (Tag.tokens_cropped h')]
  exact .nil

end Cropped

/-- An element that is not closed in some lexemes is not closed by one more tag inside of another
element. -/
theorem spanLength?_succ {depth : Nat} {ls : List Lexeme} (h : spanLength? depth ls = none)
    (name raw : List Char) : spanLength? (depth + 1) (ls ++ [⟨.closing name, raw⟩]) = none := by
  induction ls generalizing depth with
  | nil => rfl
  | cons l ls ih =>
      obtain ⟨token, raw'⟩ := l
      cases token with
      | closing name' =>
          cases depth with
          | zero => cases h
          | succ depth => exact Option.map_eq_none_iff.mpr (ih (Option.map_eq_none_iff.mp h))
      | opening _ _ | empty _ _ | text _ | characters _ | comment | instruction | documentType =>
          exact Option.map_eq_none_iff.mpr (ih (Option.map_eq_none_iff.mp h))

/-- What is left of an element that is opened is closed by what is left of its last tag, or not. -/
theorem Cropped.of_opening {t : Tag} {ps ps' : List Part} {as : List Attribute}
    (hform : t.form = .opening as) (hcut : ∀ q ∈ Part.tag t :: ps, q.Cut)
    (hapart : Part.Apart (.tag t :: ps)) (hcut' : ∀ q ∈ ps', q.Cut) (hapart' : Part.Apart ps')
    (halike : List.Forall₂ (fun q q' : Part => q.lexeme.Alike id q'.lexeme) (.tag t :: ps) ps')
    (hspan : spanLength? 0 (ps.map Part.lexeme) = none) {body : List Char} (hbody : '>' ∉ body)
    (hhead : ∀ c, (Part.writeAll ps').head? = some c → c = '<') :
    Cropped (Part.writeAll (.tag t :: ps) ++ '<' :: '/' :: body)
      (Part.writeAll ps' ++ '<' :: '/' :: body) := by
  have hend : ∀ c, ('<' :: '/' :: body).head? = some c → c = '<' :=
    fun c hc => (Option.some.inj hc).symm
  have htokens := Part.tokens_writeAll_append hcut hapart hend
  have htokens' := Part.tokens_writeAll_append hcut' hapart' hend
  rw [Tag.tokens_closing hbody] at htokens htokens'
  have htoken : (Part.tag t).lexeme = ⟨.opening t.name t.attributes, t.write⟩ := by
    rw [Part.lexeme, Tag.token, hform]
  have hlexemes : List.Forall₂ (Lexeme.Alike id)
      ((Part.tag t :: ps).map Part.lexeme ++ [⟨.closing (closingName body), '<' :: '/' :: body⟩])
      (ps'.map Part.lexeme ++ [⟨.closing (closingName body), '<' :: '/' :: body⟩]) :=
    List.rel_append
      (List.forall₂_map_left_iff.mpr (List.forall₂_map_right_iff.mpr halike))
      (.cons (.closing (closingName body)) .nil)
  obtain ⟨n, intact, hn, hn'⟩ := exists_nested_take Function.injective_id hlexemes true []
  refine ⟨fun c hc => (Option.some.inj hc).symm, ?_, ?_, ?_, ?_⟩
  · intro c hc
    rw [List.head?_append] at hc
    cases hps' : (Part.writeAll ps').head? with
    | some d =>
        rw [hps', Option.some_or] at hc
        exact hhead c (hps'.trans hc)
    | none =>
        rw [hps', Option.none_or] at hc
        exact hend c hc
  · rw [OpensFirst, scan, htokens, List.map_cons, htoken]
    exact .inr ⟨_, _, _, _, rfl⟩
  · rw [htokens, List.map_cons, htoken]
    exact Option.map_eq_none_iff.mpr (spanLength?_succ hspan _ _)
  · rw [List.map_nil] at hn'
    rw [scan, scan, htokens, htokens']
    dsimp only [Scan.prepend]
    rw [hn, hn']
    exact List.forall₂_take n hlexemes

end Xml

end Holdings
