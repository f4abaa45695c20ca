import Holdings.Proofs.Embedded
import Holdings.Proofs.Nodes
import Holdings.Proofs.Notations
import Holdings.Proofs.Occurrences
import Holdings.Proofs.Utf8
/-!
# Files of identifiers

Identifiers may stand in the setting of a leaf or in a file, one to a line. The setting is only
brought to normal form, while a line of the file is searched for numbers first, and only if there is
none it is taken for a spelling itself. Both come to the same filter. The characters of one serial
number do not suffice for a second one, so the search of a spelling finds that number in canonical
form or nothing (`Issn.findAll_of_squeeze`), and a line with a title is read as its number alone
because there are no digits in the title.
-/

namespace Holdings

open Json (Value)
open Decoding

/-! ## Lines -/

namespace Text

variable {line s : List Char}

theorem linesFrom_append (h : '\n' ∉ line) (before : List Char) :
    linesFrom before (line ++ s) = linesFrom (line.reverse ++ before) s := by
  induction line generalizing before with
  | nil => rfl
  | cons c line ih =>
      obtain ⟨hc, hline⟩ := not_or.mp (mt List.mem_cons.mpr h)
      rw [List.cons_append, linesFrom.eq_3 _ _ _ (Ne.symm hc), ih hline, List.reverse_cons,
        List.append_assoc, List.singleton_append]

theorem lines_append (h : '\n' ∉ line) : lines (line ++ '\n' :: s) = dropReturn line :: lines s := by
  rw [lines, linesFrom_append h, List.append_nil, linesFrom, List.reverse_reverse, lines]

theorem lines_of_not_mem (h : '\n' ∉ line) : lines line = if line.isEmpty then [] else [line] := by
  have hlast := linesFrom_append (s := []) h []
  rwa [List.append_nil, List.append_nil, linesFrom, List.isEmpty_reverse, List.reverse_reverse]
    at hlast

/-- The carriage return of an ending is blank, so without it a line is the same when trimmed. -/
theorem trim_dropReturn (line : List Char) : trim (dropReturn line) = trim line := by
  rw [dropReturn]
  split
  · next h =>
    obtain ⟨s, rfl⟩ := List.getLast?_eq_some_iff.mp h
    rw [List.dropLast_concat, trim_append (List.forall_mem_singleton.mpr rfl)]
  · rfl

theorem trim_eq_self {c d : Char} (hc : s.head? = some c) (hhead : isBlank c = false)
    (hd : s.getLast? = some d) (hlast : isBlank d = false) : trim s = s := by
  have hstart : trimStart s = s := trimStart_eq_self_iff.mpr (by simp [hc, hhead])
  have hend : trimStart s.reverse = s.reverse := trimStart_eq_self_iff.mpr (by simp [hd, hlast])
  rw [trim, hstart, trimEnd, hend, List.reverse_reverse]

end Text

/-- Of lines that are joined, those that are not blank are read again, without the blanks around
them. -/
theorem listLines_join {lines : List (List Char)} (h : ∀ line ∈ lines, '\n' ∉ line) :
    listLines (String.ofList (Text.join ['\n'] lines)) =
      (lines.map Text.trim).filter fun line => !line.isEmpty := by
  rw [listLines, String.toList_ofList]
  induction lines with
  | nil => rfl
  | cons line lines ih =>
      obtain ⟨hline, hlines⟩ := List.forall_mem_cons.mp h
      cases lines with
      | nil =>
          rw [Text.join, Text.lines_of_not_mem hline]
          split
          · next hempty => rw [List.isEmpty_iff.mp hempty]; rfl
          · rfl
      | cons next lines =>
          have hjoin : Text.join ['\n'] (line :: next :: lines) =
              line ++ '\n' :: Text.join ['\n'] (next :: lines) := by simp [Text.join]
          rw [hjoin, Text.lines_append hline, List.map_cons, List.map_cons (a := line),
            List.filter_cons, List.filter_cons, ih hlines, Text.trim_dropReturn]

/-! ## Blanks around an identifier -/

/-- A text with blanks around it. -/
inductive Padded (s : List Char) : List Char → Prop
  | around {lead tail : List Char} (hlead : ∀ c ∈ lead, Text.isBlank c = true)
      (htail : ∀ c ∈ tail, Text.isBlank c = true) : Padded s (lead ++ s ++ tail)

theorem Padded.trim_eq {s t : List Char} (h : Padded s t) : Text.trim t = Text.trim s := by
  cases h with
  | around hlead htail => exact Text.trim_blanks_around hlead htail

theorem Padded.trimmed_eq {s t : String} (h : Padded s.toList t.toList) :
    Text.trimmed t = Text.trimmed s := by
  rw [Text.trimmed, h.trim_eq, Text.trimmed]

/-- Texts have the same normal forms with blanks around them as without. -/
theorem map_eq_of_padded {normal : String → String}
    (hnormal : ∀ s, normal (Text.trimmed s) = normal s) {ids texts : List String}
    (h : List.Forall₂ (fun id text => Padded id.toList text.toList) ids texts) :
    texts.map normal = ids.map normal := by
  induction h with
  | nil => rfl
  | cons hid _ ih => rw [List.map_cons, List.map_cons, ih, ← hnormal, hid.trimmed_eq, hnormal]

/-! ## Lists -/

/-- Identifiers, and the lines of a list of them. There is one to a line that is not blank, where
`writes` says which lines write an identifier. -/
inductive Listing (writes : String → List Char → Prop) : List String → List (List Char) → Prop
  | done : Listing writes [] []
  | blank {ids : List String} {line : List Char} {lines : List (List Char)}
      (hblank : ∀ c ∈ line, Text.isBlank c = true) (hline : '\n' ∉ line)
      (hrest : Listing writes ids lines) : Listing writes ids (line :: lines)
  | entry {id : String} {line : List Char} {ids : List String} {lines : List (List Char)}
      (hid : writes id line) (hline : '\n' ∉ line) (hrest : Listing writes ids lines) :
      Listing writes (id :: ids) (line :: lines)

namespace Listing

variable {writes : String → List Char → Prop} {ids : List String} {lines : List (List Char)}

theorem not_mem (h : Listing writes ids lines) : ∀ line ∈ lines, '\n' ∉ line := by
  induction h with
  | done => exact List.forall_mem_nil _
  | blank _ hline _ ih | entry _ hline _ ih => exact List.forall_mem_cons.mpr ⟨hline, ih⟩

/-- If every line is read as the identifier that it writes, up to the normal form, then so is the
file. -/
theorem map_listLines (h : Listing writes ids lines) {onLine : List Char → List String}
    {normal : String → String}
    (hread : ∀ id line, writes id line →
      Text.trim line ≠ [] ∧ (onLine (Text.trim line)).map normal = [normal id]) :
    ((listLines (String.ofList (Text.join ['\n'] lines))).flatMap onLine).map normal =
      ids.map normal := by
  rw [listLines_join h.not_mem]
  induction h with
  | done => rfl
  | blank hblank _ _ ih =>
      rw [List.map_cons, Text.trim_eq_nil_iff.mpr hblank]
      exact ih
  | @entry _ line _ _ hid _ _ ih =>
      obtain ⟨hne, hline⟩ := hread _ _ hid
      have hkept : (!(Text.trim line).isEmpty) = true := by simpa using hne
      rw [List.map_cons, List.filter_cons, if_pos hkept, List.flatMap_cons, List.map_append, hline,
        ih, List.map_cons, List.singleton_append]

end Listing

/-! ## Serial numbers on a line -/

namespace Issn

/-- A line that writes a serial number: by itself with blanks around it, or in hyphenated form with
any text after it in which there is no digit. -/
inductive OnLine : String → List Char → Prop
  | alone {id : String} {line : List Char} (hid : (parse? id).isSome = true)
      (hline : Padded id.toList line) : OnLine id line
  | titled {id : String} {lead title : List Char}
      (hid : isCanonical (id.toList.map Char.toUpper) = true)
      (hlead : ∀ c ∈ lead, Text.isBlank c = true) (htitle : ∀ c ∈ title, c.isDigit = false) :
      OnLine id (lead ++ (id.toList ++ title))

/-- The characters of the numbers that are found are characters of the text. -/
theorem squeeze_findAll (text : List Char) :
    ((findAll text).flatMap squeeze).Sublist (squeeze text) := by
  fun_induction findAll text with
  | case1 => exact List.Sublist.slnil
  | case2 c text _ ih =>
      have hsplit : squeeze (c :: text) = squeeze ((c :: text).take 9) ++ squeeze (text.drop 8) := by
        rw [← squeeze_append, ← List.drop_succ_cons (a := c), List.take_append_drop]
      rw [List.flatMap_cons, hsplit]
      exact List.Sublist.append (List.Sublist.refl _) ih
  | case3 c text _ ih =>
      refine ih.trans ?_
      rw [squeeze_eq, squeeze_eq]
      exact ((List.sublist_cons_self c text).filter counts).map Char.toUpper

/-- In a spelling of a serial number this number is found, or none. -/
theorem findAll_of_squeeze {text : List Char} {i : Issn} (h : squeeze text = i.compact) :
    findAll text = [] ∨ findAll text = [i.canonical] := by
  have hsub := squeeze_findAll text
  have hcanonical : ∀ s ∈ findAll text, ∃ j : Issn, j.canonical = s :=
    fun s hs => exists_canonical_eq (isCanonical_of_mem_findAll hs)
  rw [h] at hsub
  match hfound : findAll text with
  | [] => exact .inl rfl
  | [s] =>
      obtain ⟨j, rfl⟩ := hcanonical s (by simp [hfound])
      rw [hfound, List.flatMap_singleton, squeeze_canonical] at hsub
      have hcompact : j.compact = i.compact :=
        hsub.eq_of_length (j.length_compact.trans i.length_compact.symm)
      rw [canonical, canonical, hcompact]
      exact .inr rfl
  | s :: t :: found =>
      obtain ⟨j, rfl⟩ := hcanonical s (by simp [hfound])
      obtain ⟨k, rfl⟩ := hcanonical t (by simp [hfound])
      rw [hfound, List.flatMap_cons, List.flatMap_cons, squeeze_canonical, squeeze_canonical]
        at hsub
      have hlength := hsub.length_le
      rw [List.length_append, List.length_append, length_compact, length_compact, length_compact]
        at hlength
      omega

theorem isDigit_toUpper {c : Char} (h : c.isDigit = false) : c.toUpper.isDigit = false := by
  by_cases hlow : 97 ≤ c.toNat ∧ c.toNat ≤ 122
  · rw [Bool.eq_false_iff]
    intro hd
    have := toNat_of_isDigit hd
    rw [toNat_toUpper, if_pos hlow] at this
    omega
  · rwa [toUpper_eq_self hlow]

/-- Before a text without digits, a number in canonical form is the only one. -/
theorem findAll_append {s text : List Char} (hs : isCanonical s = true)
    (h : ∀ c ∈ text, c.isDigit = false) : findAll (s ++ text) = [s] := by
  obtain ⟨i, rfl⟩ := exists_canonical_eq hs
  rw [findAll_canonical_append, ← List.append_nil text, findAll_passed (passed_of_no_digit h []),
    findAll]

/-- Canonical forms have no blanks in them, also with small letters. -/
theorem free_of_isCanonical {s : List Char} (h : isCanonical (s.map Char.toUpper) = true) :
    ∀ c ∈ s, Text.isBlank c = false := by
  obtain ⟨i, hi⟩ := exists_canonical_eq h
  intro c hc
  have hmem : c.toUpper ∈ i.canonical := hi ▸ List.mem_map_of_mem hc
  by_cases hdash : c.toUpper = '-'
  · have hself : c.toUpper = c := by
      refine toUpper_eq_self fun hlow => ?_
      have hnat := toNat_toUpper c
      rw [if_pos hlow, hdash] at hnat
      have : '-'.toNat = 45 := rfl
      omega
    rw [← hself, hdash]
    rfl
  · have hcounts := (counts_of_check (isCheck_iff.mp (isCheck_of_mem_canonical hmem hdash))).1
    rw [counts_toUpper, counts, Bool.and_eq_true, Bool.not_eq_true'] at hcounts
    exact hcounts.2

/-- A line that writes a serial number is read as the canonical form of this number. -/
theorem issnsOnLine_of_onLine {id : String} {line : List Char} (h : OnLine id line) :
    Text.trim line ≠ [] ∧ (issnsOnLine (Text.trim line)).map normalize = [normalize id] := by
  cases h with
  | alone hid hline =>
      obtain ⟨i, hi⟩ := Option.isSome_iff_exists.mp hid
      have hsqueeze : squeeze (Text.trim line) = i.compact := by
        rw [hline.trim_eq, squeeze_trim, parse?_eq_some_iff.mp hi]
      have hne : Text.trim line ≠ [] := by
        intro hnil
        have hlength := i.length_compact
        rw [← hsqueeze, hnil] at hlength
        cases hlength
      refine ⟨hne, ?_⟩
      have hupper : squeeze ((Text.trim line).map Char.toUpper) = i.compact := by
        rw [squeeze_map_toUpper, hsqueeze]
      have hparse : parse? (String.ofList ((Text.trim line).map Char.toUpper)) = some i :=
        parse?_eq_some_iff.mpr (by rw [String.toList_ofList, hupper])
      have hnormal : normalize id = i.text := by rw [normalize, hi]
      have hread : issnsOnLine (Text.trim line) = [i.text] := by
        rcases findAll_of_squeeze hupper with hfound | hfound
        · simp [issnsOnLine, hfound, hparse]
        · simp [issnsOnLine, hfound, text]
      rw [hread, List.map_singleton, normalize_text, hnormal]
  | @titled lead title hid hlead htitle =>
      obtain ⟨i, hi⟩ := exists_canonical_eq hid
      have hne : id.toList ≠ [] := by
        intro hnil
        rw [hnil] at hid
        cases hid
      have htrim : Text.trim (lead ++ (id.toList ++ title)) = id.toList ++ Text.trimEnd title := by
        rw [Text.trim, Text.trimStart_append hlead, ← Text.trim,
          Text.trim_append_of_free hne (free_of_isCanonical hid)]
      have hrest : ∀ c ∈ (Text.trimEnd title).map Char.toUpper, c.isDigit = false := by
        intro c hc
        obtain ⟨d, hd, rfl⟩ := List.mem_map.mp hc
        exact isDigit_toUpper (htitle d (Text.mem_of_mem_trimEnd hd))
      have hsqueeze : squeeze id.toList = i.compact := by
        rw [← squeeze_map_toUpper, ← hi, squeeze_canonical]
      have hnormal : normalize id = i.text := by
        rw [normalize, parse?_eq_some_iff.mpr hsqueeze]
      have hread : issnsOnLine (id.toList ++ Text.trimEnd title) = [i.text] := by
        simp only [issnsOnLine, List.map_append, findAll_append hid hrest, List.map_singleton, text,
          hi]
      rw [htrim, hread, List.map_singleton, normalize_text, hnormal]
      exact ⟨List.append_ne_nil_of_left_ne_nil hne _, rfl⟩

end Issn

/-! ## Other identifiers on a line -/

namespace Isbn

/-- A line that writes a book number, with blanks around it. -/
def OnLine (id : String) (line : List Char) : Prop :=
  (∃ n, Writes n id.toList) ∧ Padded id.toList line

theorem isBlank_of_counts {c : Char} (h : Issn.counts c = true) : Text.isBlank c = false := by
  rw [Issn.counts, Bool.and_eq_true, Bool.not_eq_true'] at h
  exact h.2

/-- What is written ends with its check character, and begins with its first digit. -/
theorem ends_of_spaced {k : Nat} {n s : List Char} (hn : Checked k n) (h : Spaced n s) :
    (∃ c, s.head? = some c ∧ Text.isBlank c = false) ∧
      ∃ c, s.getLast? = some c ∧ Text.isBlank c = false := by
  induction h generalizing k with
  | @last c d h =>
      have hcounts := (counts_head hn).1
      rw [← h, Issn.counts_toUpper] at hcounts
      exact ⟨⟨d, rfl, isBlank_of_counts hcounts⟩, d, rfl, isBlank_of_counts hcounts⟩
  | @close c n s h ih =>
      have hc := isBlank_of_counts (counts_head hn).1
      cases hn with
      | check _ => cases h
      | digit _ hn =>
          obtain ⟨-, d, hd, hblank⟩ := ih hn
          refine ⟨⟨c, rfl, hc⟩, d, ?_, hblank⟩
          rw [List.getLast?_cons, hd]
          rfl
  | @apart c sep n s _ h ih =>
      have hc := isBlank_of_counts (counts_head hn).1
      cases hn with
      | check _ => cases h
      | digit _ hn =>
          obtain ⟨-, d, hd, hblank⟩ := ih hn
          refine ⟨⟨c, rfl, hc⟩, d, ?_, hblank⟩
          rw [List.getLast?_cons, List.getLast?_cons, hd]
          rfl

theorem trim_of_writes {n s : List Char} (h : Writes n s) : Text.trim s = s := by
  cases h with
  | short hn h =>
      obtain ⟨⟨c, hc, hhead⟩, d, hd, hlast⟩ := ends_of_spaced hn h
      exact Text.trim_eq_self hc hhead hd hlast
  | @long p n s hp hn h =>
      have hdigit : p.isDigit = true := by rcases hp with rfl | rfl <;> rfl
      obtain ⟨-, d, hd, hlast⟩ := ends_of_spaced (.digit hdigit hn) h
      have hlong : ('9' :: '7' :: s).getLast? = some d := by
        rw [List.getLast?_cons, List.getLast?_cons, hd]
        rfl
      exact Text.trim_eq_self rfl rfl hlong hlast

/-- A line that writes a book number is read as this number. -/
theorem isbnsOnLine_of_onLine {id : String} {line : List Char} (h : OnLine id line) :
    Text.trim line ≠ [] ∧ (isbnsOnLine (Text.trim line)).map normalize = [normalize id] := by
  obtain ⟨⟨n, hn⟩, hline⟩ := h
  have htrim : Text.trim line = id.toList := by rw [hline.trim_eq, trim_of_writes hn]
  have hfound : findAll id.toList = [n] := map_squeeze_findFrom (.one hn) rfl
  rw [htrim, isbnsOnLine, hfound, List.map_singleton, List.map_singleton, normalize,
    String.toList_ofList, ← squeeze_writes hn, Issn.squeeze_squeeze]
  exact ⟨ne_nil_of_writes hn, rfl⟩

end Isbn

/-- A line that writes a digital object identifier, with blanks around it. Any text is one that does
not only consist of blanks. -/
def Doi.OnLine (id : String) (line : List Char) : Prop :=
  (∃ c ∈ id.toList, Text.isBlank c = false) ∧ Padded id.toList line

theorem Doi.trimmed_of_onLine {id : String} {line : List Char} (h : OnLine id line) :
    Text.trim line ≠ [] ∧ [String.ofList (Text.trim line)].map Text.trimmed = [Text.trimmed id] := by
  obtain ⟨⟨c, hc, hblank⟩, hline⟩ := h
  rw [hline.trim_eq, List.map_singleton, ← Text.trimmed, Text.trimmed_trimmed]
  refine ⟨fun hnil => ?_, rfl⟩
  have := Text.trim_eq_nil_iff.mp hnil c hc
  rw [hblank] at this
  cases this

/-! ## Files and settings -/

/-- A node that names a file of identifiers and the nodes that hold these identifiers, with blanks
around them or without, are read as one filter, and nothing is loaded. -/
structure ReadAlike (s : Surroundings) (b : Builtin) (name : String) (ids : List String)
    (f : Filter) : Prop where
  file : ∀ loaded : Cache,
    runFrom (Constructors.standard.decode s
      (.object [(b.name, .object [("file", .string name)])])) loaded = (.ok f, loaded)
  inline : ∀ (loaded : Cache) (texts : List String),
    List.Forall₂ (fun id text => Padded id.toList text.toList) ids texts →
    runFrom (Constructors.standard.decode s (.object [(b.name, .ofTexts texts)])) loaded =
      (.ok f, loaded)

namespace Constructors

variable {s : Surroundings} {b : Builtin} {kind : String} {onLine : List Char → List String}
  {make : List String → Filter}

/-- What is read from a node that names a file. -/
theorem runFrom_decode_file (hb : b.construct = identified kind onLine make) {name : String}
    {text : List Char}
    (hfile : s.files.read (s.config.resolve name) = .ok (Text.Utf8.encode text)) (loaded : Cache) :
    runFrom (standard.decode s (.object [(b.name, .object [("file", .string name)])])) loaded =
      (.ok (make ((listLines (String.ofList text)).flatMap onLine)), loaded) := by
  have hdecode : Text.Utf8.decode? (Text.Utf8.encode text) = some text :=
    Text.Utf8.decode?_eq_some_iff.mpr rfl
  have htext : s.files.readText (s.config.resolve name) = .ok (String.ofList text) := by
    simp only [FileTree.readText, hfile, bind, Except.bind, hdecode]
  have hsetting : demand (.shape kind) (IdentifierSetting.ofValue
      (.object [("file", .string name)])) = pure ⟨[], some name⟩ := rfl
  rw [decode_builtin, hb, identified]
  unfold identifiers
  simp only [hsetting, pure_bind, htext]
  rfl

/-- A kind that brings identifiers to a normal form makes one filter of the file and of the
identifiers if it reads every line as the identifier on it. -/
theorem readAlike_of_listing (hb : b.construct = identified kind onLine make)
    {normal : String → String} (hnormal : ∀ t, normal (Text.trimmed t) = normal t)
    (hmake : ∀ ids ids' : List String, ids.map normal = ids'.map normal → make ids = make ids')
    {writes : String → List Char → Prop}
    (hread : ∀ id line, writes id line →
      Text.trim line ≠ [] ∧ (onLine (Text.trim line)).map normal = [normal id])
    {name : String} {lines : List (List Char)}
    (hfile : s.files.read (s.config.resolve name) =
      .ok (Text.Utf8.encode (Text.join ['\n'] lines)))
    {ids : List String} (hids : Listing writes ids lines) :
    ReadAlike s b name ids (make ids) where
  file := by
    intro loaded
    rw [runFrom_decode_file hb hfile, hmake _ _ (hids.map_listLines hread)]
  inline := by
    intro loaded texts htexts
    exact runFrom_decode_identified hb (hmake _ _ (map_eq_of_padded hnormal htexts)) loaded

/-- List files and inline lists mean the same. Where a file holds identifiers one to a line, with
blanks around them and blank lines anywhere, the node that names the file and the nodes that list
the identifiers are read as the same filter. On a line there may be any spelling of a serial number,
also a hyphenated one with a title after it that has no digits; any spelling of a book number; and
any text that does not only consist of blanks. -/
theorem listFile_readAlike {s : Surroundings} {name : String} {lines : List (List Char)}
    (hfile : s.files.read (s.config.resolve name) =
      .ok (Text.Utf8.encode (Text.join ['\n'] lines))) :
    (∀ ids, Listing Issn.OnLine ids lines → ReadAlike s .issn name ids (.ofIssns ids)) ∧
    (∀ ids, Listing Isbn.OnLine ids lines → ReadAlike s .isbn name ids (.ofIsbns ids)) ∧
    ∀ ids, Listing Doi.OnLine ids lines → ReadAlike s .doi name ids (.ofDois ids) := by
  have hsqueeze : ∀ t, Isbn.normalize (Text.trimmed t) = Isbn.normalize t := by
    intro t
    rw [Isbn.normalize, Text.toList_trimmed, Issn.squeeze_trim, Isbn.normalize]
  refine ⟨fun ids h => ?_, fun ids h => ?_, fun ids h => ?_⟩
  · exact readAlike_of_listing rfl Issn.normalize_trimmed
      (fun _ _ he => congrArg (fun keys => Filter.issn (distinct keys)) he)
      (fun _ _ => Issn.issnsOnLine_of_onLine) hfile h
  · exact readAlike_of_listing rfl hsqueeze
      (fun _ _ he => congrArg (fun keys => Filter.isbn (distinct keys)) he)
      (fun _ _ => Isbn.isbnsOnLine_of_onLine) hfile h
  · exact readAlike_of_listing rfl Text.trimmed_trimmed
      (fun _ _ he => congrArg (fun keys => Filter.doi (distinct keys)) he)
      (fun _ _ => Doi.trimmed_of_onLine) hfile h

/-- A serial number with a title, and one that is not hyphenated. -/
def serialLines : List (List Char) :=
  ["  0006-249x Title".toList, "\t".toList, "1234 5678\r".toList]

/-- A book number with hyphens, after an empty line. -/
def bookLines : List (List Char) := [[], "3-16-148410-X ".toList]

/-- A digital object identifier. -/
def doiLines : List (List Char) := [" 10.1000/x y".toList, []]

/-- Three files of identifiers. -/
def listFiles : Surroundings where
  files :=
    { files := [(["issns"], Text.Utf8.encode (Text.join ['\n'] serialLines)),
        (["isbns"], Text.Utf8.encode (Text.join ['\n'] bookLines)),
        (["dois"], Text.Utf8.encode (Text.join ['\n'] doiLines))]
      directories := []
      working := [] }
  config := .standard

theorem listing_serialLines : Listing Issn.OnLine ["0006-249x", "1234 5678"] serialLines := by
  have hblank : ∀ c ∈ "  ".toList, Text.isBlank c = true := List.all_eq_true.mp rfl
  have htitle : ∀ c ∈ " Title".toList, c.isDigit = false := by simp
  have htitled : Issn.OnLine "0006-249x" ("  ".toList ++ ("0006-249x".toList ++ " Title".toList)) :=
    .titled rfl hblank htitle
  have hpadded : Padded "1234 5678".toList ([] ++ "1234 5678".toList ++ ['\r']) :=
    .around (List.forall_mem_nil _) (List.forall_mem_singleton.mpr rfl)
  exact .entry htitled (by simp) (.blank (List.all_eq_true.mp rfl) (by simp)
    (.entry (.alone (by decide) hpadded) (by simp) .done))

theorem listing_bookLines : Listing Isbn.OnLine ["3-16-148410-X"] bookLines := by
  have hspaced : Isbn.Spaced "316148410X".toList "3-16-148410-X".toList :=
    .apart (.inl rfl) (.close (.apart (.inl rfl) (.close (.close (.close (.close (.close
      (.apart (.inl rfl) (.last rfl)))))))))
  have hpadded : Padded "3-16-148410-X".toList ([] ++ "3-16-148410-X".toList ++ [' ']) :=
    .around (List.forall_mem_nil _) (List.forall_mem_singleton.mpr rfl)
  exact .blank (List.forall_mem_nil _) (by simp)
    (.entry ⟨⟨_, .short (by decide) hspaced⟩, hpadded⟩ (by simp) .done)

theorem listing_doiLines : Listing Doi.OnLine ["10.1000/x y"] doiLines := by
  have hpadded : Padded "10.1000/x y".toList ([' '] ++ "10.1000/x y".toList ++ []) :=
    .around (List.forall_mem_singleton.mpr rfl) (List.forall_mem_nil _)
  exact .entry ⟨⟨'1', by simp, rfl⟩, hpadded⟩ (by simp)
    (.blank (List.forall_mem_nil _) (by simp) .done)

theorem read_listFiles :
    listFiles.files.read (listFiles.config.resolve "issns") =
        .ok (Text.Utf8.encode (Text.join ['\n'] serialLines)) ∧
      listFiles.files.read (listFiles.config.resolve "isbns") =
        .ok (Text.Utf8.encode (Text.join ['\n'] bookLines)) ∧
      listFiles.files.read (listFiles.config.resolve "dois") =
        .ok (Text.Utf8.encode (Text.join ['\n'] doiLines)) := by
  refine ⟨?_, ?_, ?_⟩ <;> rfl

/-- The files are read as their identifiers. -/
theorem listFile_readAlike_listFiles :
    ReadAlike listFiles .issn "issns" ["0006-249x", "1234 5678"]
        (.issn ["0006-249X", "1234-5678"]) ∧
      ReadAlike listFiles .isbn "isbns" ["3-16-148410-X"] (.isbn ["316148410X"]) ∧
      ReadAlike listFiles .doi "dois" ["10.1000/x y"] (.doi ["10.1000/x y"]) := by
  obtain ⟨hserials, hbooks, hdois⟩ := read_listFiles
  have hissns : Filter.ofIssns ["0006-249x", "1234 5678"] = .issn ["0006-249X", "1234-5678"] := by
    cbv
  have hisbns : Filter.ofIsbns ["3-16-148410-X"] = .isbn ["316148410X"] := by cbv
  have hplain : Filter.ofDois ["10.1000/x y"] = .doi ["10.1000/x y"] := by cbv
  rw [← hissns, ← hisbns, ← hplain]
  exact ⟨(listFile_readAlike hserials).1 _ listing_serialLines,
    (listFile_readAlike hbooks).2.1 _ listing_bookLines,
    (listFile_readAlike hdois).2.2 _ listing_doiLines⟩

end Constructors

end Holdings
