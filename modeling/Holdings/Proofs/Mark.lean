import Holdings.Proofs.Fragments
import Holdings.Proofs.Skipping
import Holdings.Proofs.Spans
/-!
# A byte order mark in front

What a byte order mark in front of a document does to its reading. A table is read as if the mark
was not there. In markup the same elements are found, but as positions do not count the mark, each
of them is cut out three bytes early. If the cut falls between characters then the element has
lost its end, and so can hardly be read (`Format.parse_marked`). If it falls inside of one there
is no text to read, and the reading is torn (`Document.exists_cutsOut_iff`).
-/

namespace Holdings

open Format (byteOrderMark)

namespace Xml

open Text.Utf8 (size encode)

/-! ## What is cut out behind a mark -/

/-- Both ends of the cut of an element behind a mark fall between characters, and `s` is what is
cut out. -/
def Document.CutsOut (d : Document) (e : Element) (s : List Char) : Prop :=
  ∃ front back, mark :: d.text = front ++ (s ++ back) ∧ size front = e.position ∧
    size s = size e.raw

theorem Document.CutsOut.fragment?_eq {d : Document} {e : Element} {s : List Char}
    (h : d.CutsOut e s) : (Document.mk true d.text).fragment? e.position e.raw = some s := by
  obtain ⟨front, back, hsplit, hfront, hs⟩ := h
  have hfront' : (encode front).length = e.position := hfront
  have hs' : (encode s).length = size e.raw := hs
  rw [fragment?, if_pos rfl, Text.Utf8.decode?_eq_some_iff]
  dsimp only
  rw [hsplit, Text.Utf8.encode_append, Text.Utf8.encode_append, List.drop_left' hfront',
    List.take_left' hs']

-- Where less than three bytes stand before an element, the cut falls inside of the mark.
example : (Document.mk true "ab<holding/>".toList).fragment? 2 "<holding/>".toList = none := by
  cbv

/-! ## Elements that have lost their end -/

/-- A text before a tag is one lexeme. A mark at its start does not belong to it. -/
theorem exists_scan_of_text {p : List Char} (hp : '<' ∉ p) :
    ∃ p', (∀ c ∈ p, c ≠ mark → c ∈ p') ∧
      ∀ x : List Char, (∀ c, x.head? = some c → c = '<') →
        scan (Document.ofChars (p ++ x)).text = (scan x).prepend (Outline.textLexemes p') := by
  obtain ⟨p', hp', hmem, htext⟩ : ∃ p', '<' ∉ p' ∧ (∀ c ∈ p, c ≠ mark → c ∈ p') ∧
      ∀ x : List Char, (∀ c, x.head? = some c → c = '<') →
        (Document.ofChars (p ++ x)).text = p' ++ x := by
    cases p with
    | nil =>
        refine ⟨[], List.not_mem_nil, fun c hc _ => hc, fun x hx => ?_⟩
        have hhead : x.head? ≠ some mark := fun he => absurd (hx _ he) (by decide)
        rw [List.nil_append, Document.ofChars_of_head hhead]
    | cons c p =>
        by_cases hc : c = mark
        · refine ⟨p, fun hm => hp (List.mem_cons_of_mem _ hm), fun d hd hne => ?_, fun x _ => ?_⟩
          · exact (List.mem_cons.mp hd).resolve_left fun he => hne (he.trans hc)
          · rw [List.cons_append, Document.ofChars, if_pos hc]
        · refine ⟨c :: p, hp, fun d hd _ => hd, fun x _ => ?_⟩
          rw [List.cons_append, Document.ofChars, if_neg hc]
  refine ⟨p', hmem, fun x hx => ?_⟩
  rw [htext x hx, scan, tokens_text hp' hx]
  exact (Outline.content_textLexemes p').nested_append _ [] _

/-- A fragment of nothing but a text, or in which a tag is opened that nothing closes, cannot be
read, whatever text comes before the tag. -/
theorem ofFragment?_of_unclosed {p x : List Char} (hp : '<' ∉ p)
    (hx : ∀ c, x.head? = some c → c = '<')
    (h : (scan x).lexemes = [] ∨ ∃ (l : Lexeme) (name attributes : List Char) (ls : List Lexeme),
      (scan x).lexemes = l :: ls ∧ l.token = .opening name attributes ∧ spanLength? 0 ls = none) :
    Node.ofFragment? (p ++ x) = none := by
  obtain ⟨p', -, hscan⟩ := exists_scan_of_text hp
  have hevents : eventsFrom [] (scan (Document.ofChars (p ++ x)).text).lexemes =
      eventsFrom (Outline.pieces p') (scan x).lexemes := by
    rw [hscan x hx]
    exact Outline.eventsFrom_textLexemes p' _
  rw [Node.ofFragment?, hevents]
  rcases h with hnone | ⟨⟨token, raw⟩, name, attributes, ls, hls, rfl, hspan⟩
  · rw [hnone, eventsFrom]
    rcases textOf_cases (Outline.pieces p') with htextOf | ⟨content, htextOf⟩
    all_goals rw [htextOf]
  · rw [hls, eventsFrom]
    rcases textOf_cases (Outline.pieces p') with htextOf | ⟨content, htextOf⟩
    · dsimp only
      rw [htextOf]
      exact close?_of_unclosed hspan
    · dsimp only
      rw [htextOf]
      rfl

/-- A tag that is empty and has lost its end is none. -/
theorem tokens_of_cut_empty {s x : List Char} {l : Lexeme} {ls : List Lexeme}
    {name attributes : List Char} (h : (tokens s).lexemes = l :: ls)
    (hl : l.token = .empty name attributes) (hx : x <+: l.raw) (hne : x ≠ l.raw) :
    (tokens x).lexemes = [] := by
  obtain ⟨rest, hfirst, -⟩ := exists_firstLexeme h
  cases hfirst with
  | text _ _ _ => cases hl
  | @markup s t n hmarkup =>
    obtain rfl : t = .empty name attributes := hl
    rcases markup?_cases hmarkup with hother | ⟨s', -, hclosing, -⟩ | ⟨htag, hhead⟩
    · rcases hother with ht | ⟨content, ht⟩ | ht | ht <;> cases ht
    · cases hclosing
    cases x with
    | nil => rw [tokens]
    | cons c x =>
      obtain ⟨rfl, hprefix⟩ := List.cons_prefix_cons.mp hx
      obtain ⟨body, hbody, htoken⟩ := Option.bind_eq_some_iff.mp htag
      obtain ⟨rest, rfl, hagain⟩ := tagBody?_eq_some hbody
      have hn : n = body.length + 1 := by
        dsimp only at htoken
        split at htoken
        · cases htoken
          rfl
        · cases htoken
      have htake : (body ++ '>' :: rest).take n = body ++ ['>'] := by
        rw [List.append_cons]
        exact List.take_left' (by rw [List.length_append, hn]; rfl)
      rw [htake] at hprefix hne
      have hxbody : x <+: body := by
        rcases List.prefix_concat_iff.mp hprefix with rfl | hprefix
        · exact absurd rfl hne
        · exact hprefix
      rw [tokens, if_pos rfl]
      split
      · rfl
      · next hxne =>
        have hmarkup' : markup? x = none := by
          have hsame : x.head? = (body ++ '>' :: rest).head? := by
            obtain ⟨c, x, rfl⟩ := List.exists_cons_of_ne_nil hxne
            obtain ⟨more, rfl⟩ := hxbody
            rfl
          rw [hhead x hsame, tag?, tagBody?_of_prefix (hagain []) hxbody]
          rfl
        rw [hmarkup']

theorem lexemes_of_cut_empty {s x : List Char} {l : Lexeme} {ls : List Lexeme}
    {name attributes : List Char} (h : (tokens s).lexemes = l :: ls)
    (hl : l.token = .empty name attributes) (hx : x <+: l.raw) (hne : x ≠ l.raw) :
    (scan x).lexemes = [] := by
  rw [scan, tokens_of_cut_empty h hl hx hne]
  rfl

theorem exists_body_of_closing {s name : List Char} {l : Lexeme} {ls : List Lexeme}
    (h : (tokens s).lexemes = l :: ls) (hl : l.token = .closing name) :
    ∃ body, name = closingName body ∧ '>' ∉ body ∧
      (l.raw = '<' :: '/' :: body ∨ l.raw = '<' :: '/' :: (body ++ ['>'])) := by
  obtain ⟨rest, hfirst, -⟩ := exists_firstLexeme h
  cases hfirst with
  | text _ _ _ => cases hl
  | @markup s t n hmarkup =>
    obtain rfl : t = .closing name := hl
    rcases markup?_cases hmarkup with hother | ⟨s', rfl, hclosing, rfl⟩ | ⟨htag, -⟩
    · rcases hother with ht | ⟨content, ht⟩ | ht | ht <;> cases ht
    · rcases split_at_bracket s' with hs | ⟨body, rest, rfl, hbody⟩
      · rw [upToBracket_of_not_mem hs] at hclosing ⊢
        refine ⟨s', Token.closing.inj hclosing, hs, .inl ?_⟩
        rw [List.take_succ_cons, List.take_length]
      · rw [upToBracket_append hbody] at hclosing ⊢
        refine ⟨body, Token.closing.inj hclosing, hbody, .inr ?_⟩
        rw [List.take_succ_cons, List.append_cons, List.take_left' (by simp)]
    · obtain ⟨body, -, htoken⟩ := Option.bind_eq_some_iff.mp htag
      dsimp only at htoken
      split at htoken <;> cases htoken

/-- An element that has lost the end of the tag that closes it is not closed. -/
theorem lexemes_of_cut_opened {s name attributes raw short : List Char} {l : Lexeme}
    {between after : List Lexeme}
    (h : (tokens s).lexemes = l :: (between ++ ⟨.closing name, raw⟩ :: after))
    (hl : l.token = .opening name attributes)
    (hagain : ∀ (intact : Bool) (outer : List (List Char)) (after : List Lexeme),
      nested intact (name :: outer) (between ++ after) =
        (nested intact (name :: outer) after).prepend between)
    (hshort : ∀ c ∈ short, Text.isSpacing c = false) (hbracket : '>' ∉ short)
    (hne : name ≠ short) :
    (scan (rawOf (l :: between) ++ '<' :: '/' :: short)).lexemes = l :: between := by
  have hmarkup : markup? ('/' :: short) = some (.closing short, short.length + 1) := by
    rw [markup?_slash, upToBracket_of_not_mem hbracket, closingName_of_getLast? fun c hc =>
      hshort c (List.mem_of_getLast? hc)]
  have hcut : tokens ('<' :: '/' :: short) = ⟨[⟨.closing short, '<' :: '/' :: short⟩], true⟩ := by
    have hread : markup? ('/' :: short ++ []) = some (.closing short, short.length + 1) := by
      rw [List.append_nil, hmarkup]
    have h := tokens_markup (List.cons_ne_nil _ _) hread
    rw [List.append_nil, tokens] at h
    exact h
  have hspan : (tokens s).lexemes = (l :: between) ++ ⟨.closing name, raw⟩ :: after := h
  have htokens := tokens_span hspan (u := '<' :: '/' :: short)
    fun c hc => (Option.some.inj hc).symm
  obtain ⟨token, rawl⟩ := l
  obtain rfl : token = .opening name attributes := hl
  rw [scan, htokens, hcut]
  show ((nested true [name] (between ++ [⟨.closing short, _⟩])).cons _).lexemes = _
  rw [hagain, nested]
  dsimp only
  rw [if_neg hne]
  simp [Scan.cons, Scan.prepend]

/-- An element as most are: its name has no qualifier, and there is no blank right before its last
bracket. The three bytes before it, which may be those of a mark, and its own last three are whole
characters, and no bracket is opened in the former. -/
structure Document.Ordinary (d : Document) (e : Element) : Prop where
  plain : isQualified e.name = false
  ended : ∃ c, [c, '>'] <:+ e.raw ∧ Text.isSpacing c = false
  whole : ∃ x y, e.raw = x ++ y ∧ size y = 3
  apart : ∃ before after front p, d.text = before ++ (e.raw ++ after) ∧
    size before = e.position ∧ mark :: before = front ++ p ∧ size p = 3 ∧ '<' ∉ p

/-- The tag that closes an element, if there is no blank before its bracket. -/
theorem closing_eq {s name front raw : List Char} {ls : List Lexeme}
    (h : (tokens s).lexemes = ⟨.closing name, raw⟩ :: ls) {c : Char}
    (hended : [c, '>'] <:+ front ++ raw) (hc : Text.isSpacing c = false) :
    raw = '<' :: '/' :: (name ++ ['>']) := by
  obtain ⟨body, hbody, hbracket, hraw | hraw⟩ := exists_body_of_closing h rfl
  · -- The last bracket would stand in the name.
    have hraw' : raw = '<' :: '/' :: body := hraw
    obtain ⟨front', hfront'⟩ := hended
    have hlast : (front ++ raw).getLast? = some '>' := by
      rw [← hfront', List.append_cons, List.getLast?_concat]
    rw [hraw', List.getLast?_append_of_ne_nil _ (List.cons_ne_nil _ _)] at hlast
    have hmem := List.mem_of_getLast? hlast
    simp only [List.mem_cons, hbracket, or_false] at hmem
    rcases hmem with hmem | hmem <;> cases hmem
  · have hraw' : raw = '<' :: '/' :: (body ++ ['>']) := hraw
    obtain ⟨front', hfront'⟩ := hended
    have hcut : front' ++ [c] = front ++ ['<', '/'] ++ body := by
      refine (List.append_left_inj ['>']).mp ?_
      rw [List.append_assoc, List.singleton_append, hfront', hraw']
      simp
    have hlast : ∀ d, body.getLast? = some d → Text.isSpacing d = false := by
      intro d hd
      have hsame := congrArg List.getLast? hcut
      have hne : body ≠ [] := by
        rintro rfl
        cases hd
      rw [List.getLast?_concat, List.getLast?_append_of_ne_nil _ hne, hd] at hsame
      rwa [← Option.some.inj hsame]
    rw [hraw', hbody, closingName_of_getLast? hlast]

theorem ne_append_of_size {x y : List Char} (h : size y = 3) : x ≠ x ++ y := by
  intro he
  rw [List.self_eq_append_right.mp he] at h
  cases h

/-- Three bytes from the end of a closing tag take more than its bracket and less than its name. -/
theorem exists_short {front name x y : List Char} (hname : 2 ≤ name.length)
    (h : front ++ '<' :: '/' :: (name ++ ['>']) = x ++ y) (hsize : size y = 3) :
    ∃ short, x = front ++ '<' :: '/' :: short ∧ short <+: name ∧ name ≠ short := by
  have hbracket : size ['>'] = 1 := by decide
  have htotal : size (front ++ ['<', '/']) + size (name ++ ['>']) = size x + size y := by
    rw [← Text.Utf8.size_append, ← Text.Utf8.size_append, ← h]
    simp
  have hlong : 3 ≤ size (name ++ ['>']) := by
    have := Text.Utf8.length_le_size name
    rw [Text.Utf8.size_append, hbracket]
    omega
  have hsplit : (front ++ ['<', '/']) ++ (name ++ ['>']) = x ++ y := by
    rw [← h]
    simp
  obtain ⟨short, rfl, hshort⟩ := Text.Utf8.exists_of_size_le hsplit (by omega)
  refine ⟨short, by simp, ?_, ?_⟩
  · rcases List.prefix_concat_iff.mp ⟨y, hshort.symm⟩ with rfl | hprefix
    · exact absurd hshort (ne_append_of_size hsize)
    · exact hprefix
  · rintro rfl
    have hy : y = ['>'] := (List.append_cancel_left hshort).symm
    rw [hy, hbracket] at hsize
    cases hsize

theorem head?_raw_of_tag {s : List Char} {l : Lexeme} {ls : List Lexeme}
    (h : (tokens s).lexemes = l :: ls) (hl : ∀ content, l.token ≠ .text content) :
    l.raw.head? = some '<' := by
  obtain ⟨rest, hfirst, -⟩ := exists_firstLexeme h
  cases hfirst with
  | markup _ => rfl
  | text _ _ _ => exact absurd rfl (hl _)

/-- An element that is found starts with the bracket of its first tag. -/
theorem Sighted.head?_raw {wanted s : List Char} {position n : Nat} {l : Lexeme}
    {ls after : List Lexeme} {e : Element} (h : Sighted wanted position l after e n)
    (hs : (tokens s).lexemes = l :: ls) : e.raw.head? = some '<' := by
  have hl : l.raw.head? = some '<' := by
    refine head?_raw_of_tag hs fun content htext => ?_
    rcases h.opened with ⟨attributes, hl, -⟩ | ⟨attributes, hl, -⟩
    all_goals
      rw [hl] at htext
      cases htext
  rw [h.raw_eq, rawOf, List.flatMap_cons, List.head?_append, hl]
  rfl

/-- An element that is opened is closed by its own name, and the tags between can be read again
inside of any other elements. -/
theorem exists_between {intact : Bool} {openNames : List (List Char)} {name attributes : List Char}
    {raw : List Char} {after more : List Lexeme} {n : Nat} (hspan : spanLength? 0 after = some n)
    (hnested :
      (nested intact openNames (⟨.opening name attributes, raw⟩ :: (after ++ more))).lexemes =
        ⟨.opening name attributes, raw⟩ :: after) :
    ∃ (between : List Lexeme) (raw' : List Char) (after' : List Lexeme),
      after ++ more = between ++ ⟨.closing name, raw'⟩ :: after' ∧
      after.take n = between ++ [⟨.closing name, raw'⟩] ∧ spanLength? 0 between = none ∧
      ∀ (intact' : Bool) (outer : List (List Char)) (ls : List Lexeme),
        nested intact' (name :: outer) (between ++ ls) =
          (nested intact' (name :: outer) ls).prepend between := by
  obtain ⟨hle, hspan'⟩ := spanLength?_append hspan more
  have hempty : spanLength? ([] : List (List Char)).length (after ++ more) = some n := hspan'
  -- The names that are open in the element start with its own.
  have hinside : (nested intact (name :: openNames) (after ++ more)).lexemes = after :=
    (List.cons.inj hnested).2
  obtain ⟨between, raw', after', hafter, rfl, hnone, hagain⟩ :=
    exists_nested_span hempty (by rw [List.nil_append, hinside]; exact hle)
  refine ⟨between, raw', after', hafter, ?_, hnone, hagain⟩
  have htake := congrArg (List.take (between.length + 1)) hafter
  rw [List.take_append_of_le_length hle, List.append_cons] at htake
  rw [htake, List.take_left' (by simp)]

/-- What is left of an element that has lost its last three bytes: nothing, no tag at all, or a tag
that is not closed. -/
theorem lexemes_of_cut {text wanted : List Char} {e : Element} (hwanted : NameFits wanted)
    (hlength : 2 ≤ wanted.length) (hmem : e ∈ (elementsFrom wanted 0 (scan text).lexemes).1)
    (hplain : isQualified e.name = false)
    (hended : ∃ c, [c, '>'] <:+ e.raw ∧ Text.isSpacing c = false) {x y : List Char}
    (hraw : e.raw = x ++ y) (hsize : size y = 3) :
    (∀ c, x.head? = some c → c = '<') ∧
    ((scan x).lexemes = [] ∨ ∃ (l : Lexeme) (name attributes : List Char) (ls : List Lexeme),
      (scan x).lexemes = l :: ls ∧ l.token = .opening name attributes ∧
        spanLength? 0 ls = none) := by
  obtain ⟨before, l, after, n, hls, hsighted⟩ := exists_sighted_of_mem hmem
  have hname : e.name = wanted := by
    have hlocal : localName e.name = e.name := by simpa [isQualified] using hplain
    rw [← hlocal, hsighted.localName_eq]
  obtain ⟨openNames, rest, htokens, hnested⟩ := exists_nested_of_append hls
  obtain ⟨more, rfl⟩ : l :: after <+: rest := hnested ▸ nested_prefix _ _ _
  obtain ⟨s, -, hs⟩ := exists_rest_of_tokens htokens
  constructor
  · intro c hc
    have hhead := hsighted.head?_raw hs
    rw [hraw, List.head?_append, hc] at hhead
    exact Option.some.inj hhead
  rcases hsighted.opened with ⟨attributes, hl, hspan⟩ | ⟨attributes, hl, rfl⟩
  · obtain ⟨token, raw⟩ := l
    obtain rfl : token = .opening e.name attributes := hl
    obtain ⟨between, raw', after', hafter, htake, hnone, hagain⟩ := exists_between hspan hnested
    rw [List.cons_append, hafter, ← List.cons_append] at hs
    have hwhole : e.raw = rawOf (⟨.opening e.name attributes, raw⟩ :: between) ++ raw' := by
      rw [hsighted.raw_eq, htake, ← List.cons_append, Outline.rawOf_append,
        Outline.rawOf_singleton]
    -- The tag that closes it has the name and the bracket, so it loses some of the name.
    obtain ⟨s', -, hs'⟩ := exists_rest_of_tokens hs
    obtain ⟨c, hend, hc⟩ := hended
    rw [hwhole] at hend
    rw [hwhole, closing_eq hs' hend hc] at hraw
    obtain ⟨short, rfl, hprefix, hne⟩ := exists_short (hname ▸ hlength) hraw hsize
    have hchars : ∀ c ∈ short, isNameChar c = true :=
      fun c hc => hwanted.chars c (hname ▸ hprefix.subset hc)
    refine .inr ⟨⟨.opening e.name attributes, raw⟩, e.name, attributes, between, ?_, rfl, hnone⟩
    refine lexemes_of_cut_opened hs rfl hagain ?_ ?_ hne
    · exact fun c hc => (isNameChar_iff.mp (hchars c hc)).1
    · exact fun hc => (isNameChar_iff.mp (hchars _ hc)).2.2.1 rfl
  · have hwhole : e.raw = l.raw := by
      rw [hsighted.raw_eq, List.take_zero, Outline.rawOf_singleton]
    refine .inl (lexemes_of_cut_empty hs hl ⟨y, by rw [← hraw, hwhole]⟩ ?_)
    exact fun hx => ne_append_of_size hsize (hx.trans (hwhole.symm.trans hraw))

namespace Document.Ordinary

variable {d : Document} {e : Element}

/-- An ordinary element is cut out with the three bytes before it, which may be those of the mark,
and without its last three. -/
theorem exists_cutsOut (h : d.Ordinary e) :
    ∃ p x y, '<' ∉ p ∧ e.raw = x ++ y ∧ size y = 3 ∧ d.CutsOut e (p ++ x) := by
  obtain ⟨before, after, front, p, htext, hposition, hbefore, hp, hbracket⟩ := h.apart
  obtain ⟨x, y, hraw, hy⟩ := h.whole
  refine ⟨p, x, y, hbracket, hraw, hy, front, y ++ after, ?_, ?_, ?_⟩
  · rw [htext, hraw, ← List.cons_append, hbefore]
    simp only [List.append_assoc]
  · have hmark : size [mark] = 3 := by decide
    have h := congrArg size hbefore
    rw [← List.singleton_append, Text.Utf8.size_append, Text.Utf8.size_append, hmark, hp,
      hposition] at h
    omega
  · rw [hraw, Text.Utf8.size_append, Text.Utf8.size_append, hp, hy, Nat.add_comm]

/-- Behind a mark, an ordinary element can be cut out, but not read. -/
theorem exists_source (h : d.Ordinary e) {wanted : List Char} (hwanted : NameFits wanted)
    (hlength : 2 ≤ wanted.length) (hmem : e ∈ (d.elements wanted).1) :
    ∃ s, (Document.mk true d.text).source? e = some s ∧ Node.ofFragment? s = none := by
  obtain ⟨p, x, y, hbracket, hraw, hy, hcut⟩ := h.exists_cutsOut
  obtain ⟨hhead, hlexemes⟩ := lexemes_of_cut hwanted hlength hmem h.plain h.ended hraw hy
  refine ⟨p ++ x, ?_, ofFragment?_of_unclosed hbracket hhead hlexemes⟩
  rw [Document.source?, hcut.fragment?_eq, h.plain]
  rfl

end Document.Ordinary

/-! ## Elements that can be cut out -/

/-- An element that is found has characters, and stands in the text at its position. -/
theorem Document.exists_split_of_mem {d : Document} {wanted : List Char} {e : Element}
    (h : e ∈ (d.elements wanted).1) :
    e.raw ≠ [] ∧
      ∃ before after, d.text = before ++ (e.raw ++ after) ∧ size before = e.position := by
  obtain ⟨before, l, after, n, hls, hsighted⟩ := exists_sighted_of_mem h
  obtain ⟨openNames, rest, htokens, hnested⟩ := exists_nested_of_append hls
  obtain ⟨more, rfl⟩ : l :: after <+: rest := hnested ▸ nested_prefix _ _ _
  obtain ⟨s, htext, hs⟩ := exists_rest_of_tokens htokens
  have hspan : (tokens s).lexemes = (l :: after.take n) ++ (after.drop n ++ more) := by
    rw [hs, List.cons_append, List.cons_append, ← List.append_assoc, List.take_append_drop]
  obtain ⟨s', hs', -⟩ := exists_rest_of_tokens hspan
  refine ⟨fun hnil => ?_, rawOf before, s', ?_, ?_⟩
  · have hhead := hsighted.head?_raw hs
    rw [hnil] at hhead
    cases hhead
  · rw [htext, hs', hsighted.raw_eq]
  · rw [hsighted.position_eq, Nat.zero_add]

/-- Behind a mark, an element can be cut out exactly if both ends of its cut fall between
characters. -/
theorem Document.exists_cutsOut_iff {d : Document} {wanted : List Char} {e : Element}
    (hmem : e ∈ (d.elements wanted).1) :
    (∃ s, d.CutsOut e s) ↔ (Document.mk true d.text).source? e ≠ none := by
  have hsource : (Document.mk true d.text).source? e = none ↔
      (Document.mk true d.text).fragment? e.position e.raw = none := Option.map_eq_none_iff
  rw [Ne, hsource]
  constructor
  · rintro ⟨s, hs⟩
    rw [hs.fragment?_eq]
    exact Option.some_ne_none s
  · intro hsome
    obtain ⟨s, hs⟩ := Option.ne_none_iff_exists'.mp hsome
    obtain ⟨hne, before, after, htext, hposition⟩ := exists_split_of_mem hmem
    rw [fragment?, if_pos rfl, Text.Utf8.decode?_eq_some_iff] at hs
    dsimp only at hs
    have htotal : (encode (mark :: d.text)).length =
        size [mark] + (e.position + (size e.raw + size after)) := by
      rw [← hposition, ← Text.Utf8.size_append, ← Text.Utf8.size_append, ← htext,
        ← Text.Utf8.size_append]
      rfl
    have hsize : size s = size e.raw := by
      have hlength := congrArg List.length hs
      rw [List.length_take, List.length_drop, htotal] at hlength
      rw [size, ← hlength]
      omega
    have hs0 : s ≠ [] := by
      rintro rfl
      have hpos := List.length_pos_iff.mpr hne
      have := Text.Utf8.length_le_size e.raw
      have hzero : size ([] : List Char) = 0 := rfl
      omega
    have hbytes : encode (mark :: d.text) = (encode (mark :: d.text)).take e.position ++
        (encode s ++ ((encode (mark :: d.text)).drop e.position).drop (size e.raw)) := by
      rw [← hs, List.take_append_drop, List.take_append_drop]
    obtain ⟨front, back, hsplit, hfront⟩ := Text.Utf8.exists_of_encode_eq hs0 hbytes
    refine ⟨s, front, back, hsplit, ?_, hsize⟩
    rw [size, hfront, List.length_take, htotal]
    omega

theorem Document.sources_snd_of_cutsOut {d : Document} {wanted : List Char}
    (h : ∀ e ∈ (d.elements wanted).1, ∃ s, d.CutsOut e s) :
    ((Document.mk true d.text).sources (d.elements wanted).1).2 = true := by
  rw [← Bool.not_eq_false, sources_snd_eq_false_iff]
  rintro ⟨e, he, hnone⟩
  exact (exists_cutsOut_iff he).mp (h e he) hnone

/-- Behind a mark, nothing can be read of ordinary elements. -/
theorem Document.ofFragment?_sources_of_ordinary {d : Document} {wanted : List Char}
    (hwanted : NameFits wanted) (hlength : 2 ≤ wanted.length)
    (h : ∀ e ∈ (d.elements wanted).1, d.Ordinary e) :
    ∀ s ∈ ((Document.mk true d.text).sources (d.elements wanted).1).1,
      Node.ofFragment? s = none := by
  refine forall_mem_sources fun e he s hs => ?_
  obtain ⟨s', hs', hnone⟩ := (h e he).exists_source hwanted hlength he
  rwa [← Option.some.inj (hs'.symm.trans hs)]

end Xml

/-! ## Documents in every format -/

open Xml (Document)

/-- The name of the elements that are the records of a format. The records of a table are rows. -/
def Format.element? : Format → Option String
  | .kbart => none
  | .ezb => some "holding"
  | .google => some "item"

/-- Records that cannot be read are counted, and nothing else. -/
theorem Reading.foldlM_absorb_malformed {p : SkipPolicy} (hp : p.malformedRecords = true)
    {os : List Outcome} (h : ∀ o ∈ os, ∃ name index, o = .refused (.malformed name index))
    (r : Reading) :
    os.foldlM (Reading.absorb p) r =
      .ok { r with report := { r.report with
        records := r.report.records + os.length
        malformedRecords := r.report.malformedRecords + os.length } } := by
  induction os generalizing r with
  | nil => rfl
  | cons o os ih =>
      obtain ⟨⟨name, index, rfl⟩, hos⟩ := List.forall_mem_cons.mp h
      have hskip : absorb p r (.refused (.malformed name index)) =
          .ok { r.begun with report := r.begun.report.count (.malformed name index) } := by
        rw [absorb]
        exact if_pos hp
      rw [List.foldlM_cons, hskip]
      show os.foldlM (Reading.absorb p) _ = _
      rw [ih hos]
      simp only [Report.count, begun, List.length_cons]
      congr 3 <;> omega

/-- What is read from a document in which no record can be read: how many there are, or that the
first cannot be read. -/
theorem Survey.read_malformed (p : SkipPolicy) {name : String} {index : Nat} {os : List Outcome}
    {ending : Ending} (h : ∀ o ∈ os, ∃ name index, o = .refused (.malformed name index)) :
    (Survey.mk (.refused (.malformed name index) :: os) ending).read p =
      if p.malformedRecords = false then .error (.record (.malformed name index))
      else ending.close ⟨.empty, ⟨os.length + 1, 0, 0, 0, 0, os.length + 1⟩⟩ := by
  have hall : ∀ o ∈ Outcome.refused (.malformed name index) :: os,
      ∃ name index, o = .refused (.malformed name index) :=
    List.forall_mem_cons.mpr ⟨⟨name, index, rfl⟩, h⟩
  cases hp : p.malformedRecords with
  | false =>
      have hdenied : p.firstDenied?
          (Survey.mk (.refused (.malformed name index) :: os) ending).faults =
            some (.malformed name index) := by
        rw [SkipPolicy.firstDenied?, Survey.faults, List.flatMap_cons]
        exact List.find?_cons_of_pos (by rw [SkipPolicy.allows, hp]; rfl)
      rw [Survey.read_eq, hdenied, if_pos rfl]
  | true =>
      rw [Survey.read, Reading.foldlM_absorb_malformed hp hall, if_neg (by decide)]
      simp only [Reading.empty, Report.empty, List.length_cons, Nat.zero_add]
      rfl

namespace Markup

variable {name : String} {grant : Nat → Xml.Node → Option Outcome} {bs : List UInt8}

/-- Behind a mark the same elements are found, but they may not all be cut out. -/
theorem survey_marked (h : ¬ byteOrderMark <+: bs) :
    let d := Document.ofBytes bs
    let cut := (Document.mk true d.text).sources (d.elements name.toList).1
    survey name grant (byteOrderMark ++ bs) =
      ⟨outcomes name grant 1 cut.1, ending cut.2 (d.elements name.toList).2⟩ := by
  dsimp only
  rw [survey, Document.ofBytes_marked, Document.ofBytes_unmarked h]
  rfl

theorem survey_unmarked (h : ¬ byteOrderMark <+: bs) :
    let d := Document.ofBytes bs
    survey name grant bs =
      ⟨outcomes name grant 1 ((d.elements name.toList).1.map Xml.Element.source),
        ending true (d.elements name.toList).2⟩ := by
  dsimp only
  rw [survey_of_document (Document.ofBytes_unmarked h), Document.ofBytes_unmarked h]

theorem outcome_of_unreadable {s : List Char} (h : Xml.Node.ofFragment? s = none) (index : Nat) :
    outcome name grant s index = .refused (.malformed name index) := by
  rw [outcome, h]
  rfl

theorem outcomes_of_unreadable {ss : List (List Char)}
    (h : ∀ s ∈ ss, Xml.Node.ofFragment? s = none) (first : Nat) :
    ∀ o ∈ outcomes name grant first ss, ∃ name index, o = .refused (.malformed name index) := by
  intro o ho
  obtain ⟨⟨s, index⟩, hs, rfl⟩ := List.mem_map.mp ho
  exact ⟨name, index, outcome_of_unreadable (h s (List.fst_mem_of_mem_zipIdx hs)) index⟩

/-- What is read of texts of which none can be read. -/
theorem read_of_unreadable (p : SkipPolicy) {ss : List (List Char)} (hne : ss ≠ [])
    (h : ∀ s ∈ ss, Xml.Node.ofFragment? s = none) (ending : Ending) :
    (Survey.mk (outcomes name grant 1 ss) ending).read p =
      if p.malformedRecords = false then .error (.record (.malformed name 1))
      else ending.close ⟨.empty, ⟨ss.length, 0, 0, 0, 0, ss.length⟩⟩ := by
  obtain ⟨s, ss, rfl⟩ := List.exists_cons_of_ne_nil hne
  obtain ⟨hfirst, hothers⟩ := List.forall_mem_cons.mp h
  rw [outcomes_cons, outcome_of_unreadable hfirst,
    Survey.read_malformed p (outcomes_of_unreadable hothers _), length_outcomes, List.length_cons]

end Markup

namespace Format

theorem rows_marked {bs : List UInt8} (h : ¬ byteOrderMark <+: bs) :
    Rows.rows (byteOrderMark ++ bs) = Rows.rows bs := by
  have hsame : Rows.withoutMark bs = bs := by
    unfold Rows.withoutMark
    split
    · exact absurd (List.prefix_append byteOrderMark _) h
    · rfl
  rw [Rows.rows, Rows.rows, hsame]
  rfl

theorem exists_survey_of_element? {f : Format} {name : String} (h : f.element? = some name) :
    Xml.NameFits name.toList ∧ 2 ≤ name.toList.length ∧
      ∃ grant, f.survey = Markup.survey name grant := by
  cases f with
  | kbart => cases h
  | ezb =>
      cases h
      exact ⟨by decide, by decide, _, rfl⟩
  | google =>
      cases h
      exact ⟨by decide, by decide, _, rfl⟩

/-- What a byte order mark changes. A table is read the same with it and without, and so is markup
without records. Otherwise the same elements are found, as far as the document can be read. The
lenient reading is torn exactly if one of them would be cut inside of a character; if each is cut
between characters then there are as many records and they end alike. But each ordinary element that
is come to is a malformed one behind the mark, and if there are no others then nothing is read at
all. -/
theorem parse_marked (p : SkipPolicy) (bs : List UInt8) (h : ¬ byteOrderMark <+: bs) :
    Format.kbart.parse p (byteOrderMark ++ bs) = Format.kbart.parse p bs ∧
    ∀ (f : Format) (name : String), f.element? = some name →
      let d := Document.ofBytes bs
      let found := (d.elements name.toList).1
      let marked := f.survey (byteOrderMark ++ bs)
      (found = [] → f.parse p (byteOrderMark ++ bs) = f.parse p bs) ∧
      (f.parse .lenient (byteOrderMark ++ bs) = .error .torn ↔
        ∃ e ∈ found, ¬ ∃ s, d.CutsOut e s) ∧
      ((∀ e ∈ found, ∃ s, d.CutsOut e s) →
        marked.ending = (f.survey bs).ending ∧
        marked.outcomes.length = (f.survey bs).outcomes.length) ∧
      (∀ index e, found[index]? = some e → (∀ e' ∈ found.take index, ∃ s, d.CutsOut e' s) →
        d.Ordinary e →
          marked.outcomes[index]? = some (Outcome.refused (.malformed name (index + 1)))) ∧
      ((∀ e ∈ found, d.Ordinary e) →
        (∀ e ∈ found, ∃ s, d.CutsOut e s) ∧
        (found ≠ [] → f.parse p (byteOrderMark ++ bs) =
          if p.malformedRecords = false then .error (.record (.malformed name 1))
          else if marked.ending = .complete then
            .ok ⟨.empty, ⟨found.length, 0, 0, 0, 0, found.length⟩⟩
          else .error .markup)) := by
  constructor
  · rw [parse, parse, survey, Kbart.survey, Kbart.survey, rows_marked h]
  intro f name hf
  obtain ⟨hname, hlength, grant, hsurvey⟩ := exists_survey_of_element? hf
  rw [parse_lenient_eq_torn_iff, parse, parse, hsurvey, Markup.survey_marked h,
    Markup.survey_unmarked h]
  dsimp only
  have hordinary : (∀ e ∈ ((Document.ofBytes bs).elements name.toList).1,
      (Document.ofBytes bs).Ordinary e) →
        ∀ e ∈ ((Document.ofBytes bs).elements name.toList).1,
          ∃ s, (Document.ofBytes bs).CutsOut e s := by
    intro hall e he
    obtain ⟨p, x, -, -, -, -, hcut⟩ := (hall e he).exists_cutsOut
    exact ⟨p ++ x, hcut⟩
  refine ⟨fun hnone => ?_, ?_, fun hall => ?_, fun index e he hbefore he' => ?_,
    fun hall => ⟨hordinary hall, fun hsome => ?_⟩⟩
  · rw [hnone]
    rfl
  · rw [Markup.ending_eq_torn_iff, Document.sources_snd_eq_false_iff]
    refine exists_congr fun e => and_congr_right fun he => ?_
    rw [Document.exists_cutsOut_iff he, not_not]
  · have hwhole := Document.sources_snd_of_cutsOut hall
    rw [hwhole, Markup.length_outcomes, Markup.length_outcomes, List.length_map,
      (Document.forall₂_sources hwhole).length_eq]
    exact ⟨rfl, rfl⟩
  · obtain ⟨s, hs, hnone⟩ := he'.exists_source hname hlength (List.mem_of_getElem? he)
    have hcuts : ∀ e' ∈ ((Document.ofBytes bs).elements name.toList).1.take index,
        (Document.mk true (Document.ofBytes bs).text).source? e' ≠ none := fun e' hmem =>
      (Document.exists_cutsOut_iff (List.mem_of_mem_take hmem)).mp (hbefore e' hmem)
    rw [Markup.getElem?_outcomes, Document.getElem?_sources he hcuts hs, Option.map_some,
      Markup.outcome_of_unreadable hnone, Nat.add_comm]
  · have hwhole := Document.sources_snd_of_cutsOut (hordinary hall)
    have hcount := (Document.forall₂_sources hwhole).length_eq
    have hne : ((Document.mk true (Document.ofBytes bs).text).sources
        ((Document.ofBytes bs).elements name.toList).1).1 ≠ [] := by
      intro hnil
      rw [hnil] at hcount
      exact hsome (List.eq_nil_of_length_eq_zero hcount)
    rw [Markup.read_of_unreadable p hne
      (Document.ofFragment?_sources_of_ordinary hname hlength hall), hwhole, hcount]
    cases ((Document.ofBytes bs).elements name.toList).2 <;> rfl

/-- A holding, up to its last three characters. -/
def holdingStart : List Char :=
  ("<holding><EZBIssns><p-issn>1234-5678</p-issn></EZBIssns><entitlements><entitlement><begin>" ++
    "<year>2000</year></begin></entitlement></entitlements></holdi").toList

/-- A document with one holding, in a line by itself. -/
def holdingDocument : List UInt8 :=
  Text.Utf8.encode ("<all>\n".toList ++ ((holdingStart ++ "ng>".toList) ++ "\n</all>".toList))

theorem elements_holdingDocument :
    (Document.ofBytes holdingDocument).elements "holding".toList =
      ([⟨"holding".toList, 6, holdingStart ++ "ng>".toList⟩], true) := by
  cbv

theorem ordinary_holding :
    (Document.mk false
      ("<all>\n".toList ++ ((holdingStart ++ "ng>".toList) ++ "\n</all>".toList))).Ordinary
        ⟨"holding".toList, 6, holdingStart ++ "ng>".toList⟩ where
  plain := by decide
  ended := ⟨'g', ⟨holdingStart ++ ['n'], List.append_assoc ..⟩, by decide⟩
  whole := ⟨holdingStart, "ng>".toList, rfl, by decide⟩
  apart := ⟨"<all>\n".toList, "\n</all>".toList, Xml.mark :: "<al".toList, "l>\n".toList, rfl,
    by decide, by decide, by decide, by decide⟩

theorem parse_marked_holdingDocument :
    ¬ byteOrderMark <+: holdingDocument ∧
      Format.ezb.parse .lenient (byteOrderMark ++ holdingDocument) =
        .ok ⟨.empty, ⟨1, 0, 0, 0, 0, 1⟩⟩ := by
  have hunmarked : ¬ byteOrderMark <+: holdingDocument := by decide
  have hdocument := Document.ofBytes_unmarked hunmarked
  rw [holdingDocument, Text.Utf8.decodeLenient_encode, ← holdingDocument] at hdocument
  obtain ⟨-, hmarkup⟩ := parse_marked .lenient holdingDocument hunmarked
  obtain ⟨-, -, hfound, -, hread⟩ := hmarkup .ezb "holding" rfl
  rw [elements_holdingDocument] at hfound hread
  have hordinary : ∀ e ∈ [Xml.Element.mk "holding".toList 6 (holdingStart ++ "ng>".toList)],
      (Document.ofBytes holdingDocument).Ordinary e := by
    intro e he
    rw [List.mem_singleton.mp he, hdocument]
    exact ordinary_holding
  obtain ⟨hcut, hread⟩ := hread hordinary
  have hclosed : (Format.ezb.survey holdingDocument).ending = .complete := by
    rw [survey, Ezb.survey, Markup.survey_unmarked hunmarked]
    dsimp only
    rw [elements_holdingDocument]
    rfl
  refine ⟨hunmarked, ?_⟩
  rw [hread (List.cons_ne_nil _ _), (hfound hcut).1, hclosed]
  rfl

set_option maxRecDepth 4000 in
theorem mark_loses_holding :
    ¬ byteOrderMark <+: holdingDocument ∧
      Format.ezb.parse .lenient (byteOrderMark ++ holdingDocument) ≠
        Format.ezb.parse .lenient holdingDocument := by
  refine ⟨by decide, ?_⟩
  have h : ((Format.ezb.parse .lenient holdingDocument).toOption.map fun r => r.report.entries) =
    some 1 := by cbv
  have h' : ((Format.ezb.parse .lenient (byteOrderMark ++ holdingDocument)).toOption.map
    fun r => r.report.entries) = some 0 := by cbv
  intro he
  rw [he, h] at h'
  cases h'

end Format

end Holdings
