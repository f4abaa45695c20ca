import Mathlib
import Holdings.Proofs.History
import Holdings.Proofs.Leaves
import Holdings.Tagger
/-!
# Records there and back

A record that was read from a text without floating numbers is written in such a way that it is
read back, with labels or without (`RecordDocument.carries_of_ofJson`). The known fields come
first, in their own order, and the empty ones may be missing, since a record starts with all of
them empty. The other members are behind them: each name once, where it came first, with the value
that came last.
-/

namespace Holdings

open Json (Value Draft Document Name depth)

namespace RecordDocument

/-! ## Known fields -/

/-- The names of the fourteen known fields. -/
def knownNames : List String := fields.map Field.name

theorem nodup_knownNames : knownNames.Nodup := by
  decide

/-- Takes what a field holds from one record into another. -/
def Field.assign (f : Field) (r acc : RecordDocument) : RecordDocument :=
  match f.content with
  | .text get set => set acc (get r)
  | .texts get set => set acc (get r)

/-- To set a field does not touch other members, and to set it to what it holds changes nothing. -/
def Content.IsLawful : Content → Prop
  | .text get set => ∀ r, (∀ s, (set r s).extra = r.extra) ∧ set r (get r) = r
  | .texts get set => ∀ r, (∀ ss, (set r ss).extra = r.extra) ∧ set r (get r) = r

theorem isLawful_content : ∀ f ∈ fields, f.content.IsLawful := by
  simp [fields, sourceField, optionalFields, Content.IsLawful]

/-- Different fields do not touch each other. -/
theorem isEmpty_assign : optionalFields.Pairwise fun f g =>
    ∀ r acc, g.isEmpty (f.assign r acc) = g.isEmpty acc := by
  simp [optionalFields, Field.isEmpty, Field.assign]

theorem assign_of_isEmpty {f : Field} (hf : f.content.IsLawful) {r acc : RecordDocument}
    (hr : f.isEmpty r) (hacc : f.isEmpty acc) : f.assign r acc = acc := by
  obtain ⟨name, content⟩ := f
  cases content with
  | text get set =>
      have hsame : get r = get acc :=
        (String.isEmpty_iff.mp hr).trans (String.isEmpty_iff.mp hacc).symm
      show set acc (get r) = acc
      rw [hsame, (hf acc).2]
  | texts get set =>
      have hsame : get r = get acc :=
        (List.isEmpty_iff.mp hr).trans (List.isEmpty_iff.mp hacc).symm
      show set acc (get r) = acc
      rw [hsame, (hf acc).2]

/-- Where all fields are empty, those that are to be empty need not be set. -/
theorem foldl_assign_filter {fs : List Field} (hfs : ∀ f ∈ fs, f.content.IsLawful)
    (hpairs : fs.Pairwise fun f g => ∀ r acc, g.isEmpty (f.assign r acc) = g.isEmpty acc)
    (r : RecordDocument) {acc : RecordDocument} (hacc : ∀ f ∈ fs, f.isEmpty acc) :
    (fs.filter fun f => !f.isEmpty r).foldl (fun acc f => f.assign r acc) acc =
      fs.foldl (fun acc f => f.assign r acc) acc := by
  induction fs generalizing acc with
  | nil => rfl
  | cons f fs ih =>
      obtain ⟨hf, hfs⟩ := List.forall_mem_cons.mp hfs
      obtain ⟨hfirst, hpairs⟩ := List.pairwise_cons.mp hpairs
      obtain ⟨hempty, hacc⟩ := List.forall_mem_cons.mp hacc
      -- the fields behind this one are still empty, whether it is set or not
      cases hr : f.isEmpty r with
      | true =>
          rw [List.filter_cons_of_neg (by rw [hr]; decide), List.foldl_cons,
            assign_of_isEmpty hf hr hempty, ih hfs hpairs hacc]
      | false =>
          rw [List.filter_cons_of_pos (by rw [hr]; rfl), List.foldl_cons, List.foldl_cons]
          exact ih hfs hpairs fun g hg => (hfirst g hg r acc).trans (hacc g hg)

/-- The fields that are written. -/
def present (r : RecordDocument) : List Field :=
  sourceField :: optionalFields.filter fun f => !f.isEmpty r

theorem present_sublist (r : RecordDocument) : (present r).Sublist fields :=
  List.filter_sublist.cons_cons _

theorem foldl_assign_present (r : RecordDocument) :
    (present r).foldl (fun acc f => f.assign r acc) empty = { r with extra := [] } := by
  have hlawful : ∀ f ∈ optionalFields, f.content.IsLawful :=
    fun f hf => isLawful_content f (List.mem_cons_of_mem _ hf)
  have hempty : ∀ f ∈ optionalFields, f.isEmpty (sourceField.assign r empty) := by
    simp [optionalFields, Field.isEmpty, Field.assign, sourceField, empty]
  rw [present, List.foldl_cons, foldl_assign_filter hlawful isEmpty_assign r hempty]
  -- by `rfl` the record would be copied once for each of its fields, at every field
  simp only [optionalFields, sourceField, empty, List.foldl_cons, List.foldl_nil, Field.assign]

/-! ## Members of a text -/

/-- A member with its value. -/
def member (m : Name × Draft) : Except Json.Fault (String × Value) := do
  let name ← m.1
  let v ← m.2.value (depth - 1)
  .ok (name, v)

/-- The members of the object that a text writes, each with its value, as they come. A name may
come more than once. -/
def members (s : String) : Except Json.Fault (List (String × Value)) :=
  match (Document.ofText s).draft with
  | .object ms _ => ms.mapM member
  | d => d.mismatch "a map"

/-- The members that are no known fields. -/
def others (ms : List (String × Value)) : List (String × Value) :=
  ms.filter fun m => m.1 ∉ knownNames

theorem find?_reader {f : Field} (hf : f ∈ fields) :
    (fields.map Field.reader).find? (fun g => decide (g.name = f.name)) = some f.reader := by
  cases hfind : (fields.map Field.reader).find? (fun g => decide (g.name = f.name)) with
  | none =>
      have hnot := List.find?_eq_none.mp hfind f.reader (List.mem_map_of_mem hf)
      exact absurd (decide_eq_true rfl) hnot
  | some g =>
      obtain ⟨g, hg, rfl⟩ := List.mem_map.mp (List.mem_of_find?_eq_some hfind)
      have hname : g.reader.name = f.name := by simpa using List.find?_some hfind
      rw [List.inj_on_of_nodup_map nodup_knownNames hg hf hname]

theorem find?_reader_of_not_mem {name : String} (hname : name ∉ knownNames) :
    (fields.map Field.reader).find? (fun g => decide (g.name = name)) = none := by
  refine List.find?_eq_none.mpr fun g hg => ?_
  obtain ⟨f, hf, rfl⟩ := List.mem_map.mp hg
  rw [decide_eq_true_eq]
  rintro rfl
  exact hname (List.mem_map_of_mem hf)

/-- A known field is read, unless it has come before. -/
theorem readMembers_known {f : Field} (hf : f ∈ fields) (seen : List String) (r : RecordDocument)
    (d : Draft) (ms : List (Name × Draft)) :
    Json.readMembers (fields.map Field.reader) keep seen r ((.ok f.name, d) :: ms) =
      if f.name ∈ seen then .error (.shape (.duplicateField f.name))
      else f.reader.read d r >>= fun r =>
        Json.readMembers (fields.map Field.reader) keep (f.name :: seen) r ms := by
  rw [Json.readMembers]
  simp only [bind, Except.bind, find?_reader hf]

/-- Any other member is kept. -/
theorem readMembers_unknown {name : String} (hname : name ∉ knownNames) (seen : List String)
    (r : RecordDocument) (d : Draft) (ms : List (Name × Draft)) :
    Json.readMembers (fields.map Field.reader) keep seen r ((.ok name, d) :: ms) =
      keep name d r >>= fun r => Json.readMembers (fields.map Field.reader) keep seen r ms := by
  rw [Json.readMembers]
  simp only [bind, Except.bind, find?_reader_of_not_mem hname]

/-- What a known field reads is a value, and other members are left as they are. -/
theorem extra_of_read {f : Field} (hf : f ∈ fields) {d : Draft} {r r' : RecordDocument}
    (h : f.reader.read d r = .ok r') :
    r'.extra = r.extra ∧ ∃ v, d.value (depth - 1) = .ok v := by
  have hlawful := isLawful_content f hf
  obtain ⟨name, content⟩ := f
  cases content with
  | text get set =>
      obtain ⟨t, ht, h⟩ := bind_eq_ok_iff.mp h
      cases h
      exact ⟨(hlawful r).1 t, _, Json.value_of_string ht _⟩
  | texts get set =>
      obtain ⟨ts, hts, h⟩ := bind_eq_ok_iff.mp h
      cases h
      exact ⟨(hlawful r).1 ts, _, Json.value_of_strings hts (by decide)⟩

/-- The members of an object are read one after the other, and those that are no known fields are
put where the others are. -/
theorem extra_of_readMembers {ms : List (Name × Draft)} {seen seen' : List String}
    {r r' : RecordDocument}
    (h : Json.readMembers (fields.map Field.reader) keep seen r ms = .ok (seen', r')) :
    ∃ vs, ms.mapM member = .ok vs ∧
      r'.extra = (others vs).foldl (fun ps m => Pairs.put m.1 m.2 ps) r.extra := by
  induction ms generalizing seen r with
  | nil =>
      cases h
      exact ⟨[], rfl, rfl⟩
  | cons m ms ih =>
      obtain ⟨name, d⟩ := m
      obtain ⟨name, rfl, -⟩ := bind_eq_ok_iff.mp h
      have hcons : ∀ {v vs}, d.value (depth - 1) = .ok v → ms.mapM member = .ok vs →
          ((.ok name, d) :: ms).mapM member = .ok ((name, v) :: vs) := by
        intro v vs hv hvs
        rw [List.mapM_cons, hvs, member, hv]
        rfl
      by_cases hknown : name ∈ knownNames
      · obtain ⟨f, hf, rfl⟩ := List.mem_map.mp hknown
        rw [readMembers_known hf] at h
        split at h
        · cases h
        · obtain ⟨r₁, hr₁, hrest⟩ := bind_eq_ok_iff.mp h
          obtain ⟨hextra, v, hv⟩ := extra_of_read hf hr₁
          obtain ⟨vs, hvs, hrun⟩ := ih hrest
          refine ⟨(f.name, v) :: vs, hcons hv hvs, ?_⟩
          rw [others, List.filter_cons_of_neg (by simpa using hknown), hrun, hextra, others]
      · rw [readMembers_unknown hknown] at h
        obtain ⟨r₁, hr₁, hrest⟩ := bind_eq_ok_iff.mp h
        obtain ⟨v, hv, hr₁⟩ := bind_eq_ok_iff.mp hr₁
        cases hr₁
        obtain ⟨vs, hvs, hrun⟩ := ih hrest
        refine ⟨(name, v) :: vs, hcons hv hvs, ?_⟩
        rw [others, List.filter_cons_of_pos (by simpa using hknown), hrun, List.foldl_cons,
          others]

theorem readable_of_mapM_member {ms : List (Name × Draft)} {vs : List (String × Value)}
    (hms : ∀ m ∈ ms, m.2.Holds Json.Leaf.IsWhole) (h : ms.mapM member = .ok vs) :
    ∀ p ∈ vs, p.2.Readable (depth - 1) := by
  induction ms generalizing vs with
  | nil =>
      cases h
      exact List.forall_mem_nil _
  | cons m ms ih =>
      rw [List.mapM_cons] at h
      obtain ⟨p, hp, h⟩ := bind_eq_ok_iff.mp h
      obtain ⟨vs, hvs, h⟩ := bind_eq_ok_iff.mp h
      cases h
      obtain ⟨name, -, hp⟩ := bind_eq_ok_iff.mp hp
      obtain ⟨v, hv, hp⟩ := bind_eq_ok_iff.mp hp
      cases hp
      obtain ⟨hm, hms⟩ := List.forall_mem_cons.mp hms
      exact List.forall_mem_cons.mpr ⟨hm.readable hv, ih hms hvs⟩

/-! ## Reading back -/

/-- The other members of a record are no known fields, no two of them have one name, and their
values are read as they are written. -/
structure IsPlain (r : RecordDocument) : Prop where
  nodup : (r.extra.map Prod.fst).Nodup
  unknown : ∀ p ∈ r.extra, p.1 ∉ knownNames
  readable : ∀ p ∈ r.extra, p.2.Readable (depth - 1)

/-- The known fields that are written, each with its value. -/
def written (r : RecordDocument) : List (String × Value) :=
  (present r).map fun f => (f.name, f.value r)

theorem toJson_eq (r : RecordDocument) : r.toJson = .object (written r ++ r.extra) := rfl

theorem mem_knownNames_of_written {r : RecordDocument} : ∀ p ∈ written r, p.1 ∈ knownNames := by
  intro p hp
  obtain ⟨f, hf, rfl⟩ := List.mem_map.mp hp
  exact List.mem_map_of_mem ((present_sublist r).subset hf)

theorem IsPlain.nodup_names {r : RecordDocument} (h : r.IsPlain) :
    ((written r ++ r.extra).map Prod.fst).Nodup := by
  have hwritten : ((written r).map Prod.fst).Nodup := by
    rw [written, List.map_map]
    exact nodup_knownNames.sublist ((present_sublist r).map Field.name)
  rw [List.map_append, List.nodup_append]
  refine ⟨hwritten, h.nodup, ?_⟩
  rintro name hknown _ hother rfl
  obtain ⟨p, hp, rfl⟩ := List.mem_map.mp hknown
  obtain ⟨q, hq, hname⟩ := List.mem_map.mp hother
  exact h.unknown q hq (hname ▸ mem_knownNames_of_written p hp)

theorem readable_value (f : Field) (r : RecordDocument) : (f.value r).Readable (depth - 1) := by
  obtain ⟨name, content⟩ := f
  cases content with
  | text get set => exact .string _
  | texts get set =>
      refine .array (by decide) fun v hv => ?_
      obtain ⟨t, -, rfl⟩ := List.mem_map.mp hv
      exact .string t

theorem IsPlain.readable_toJson {r : RecordDocument} (h : r.IsPlain) : r.toJson.Readable depth := by
  refine .object (by decide) h.nodup_names fun p hp => ?_
  rcases List.mem_append.mp hp with hwritten | hother
  · obtain ⟨f, -, rfl⟩ := List.mem_map.mp hwritten
    exact readable_value f r
  · exact h.readable p hother

theorem read_value (f : Field) (r acc : RecordDocument) :
    f.reader.read (f.value r).draft acc = .ok (f.assign r acc) := by
  obtain ⟨name, content⟩ := f
  cases content with
  | text get set =>
      show (do .ok (set acc (← (Value.string (get r)).draft.string))) = _
      rw [Json.string_draft]
      rfl
  | texts get set =>
      show (do .ok (set acc (← (Value.ofTexts (get r)).draft.strings))) = _
      rw [Json.strings_draft]
      rfl

/-- Written fields are read back, whatever comes behind them. -/
theorem readMembers_fields {r : RecordDocument} {fs : List Field} (hfs : ∀ f ∈ fs, f ∈ fields)
    (hnames : (fs.map Field.name).Nodup) {seen : List String}
    (hseen : ∀ f ∈ fs, f.name ∉ seen) (acc : RecordDocument) (rest : List (String × Value)) :
    Json.readMembers (fields.map Field.reader) keep seen acc
        (Json.memberDrafts (fs.map (fun f => (f.name, f.value r)) ++ rest)) =
      Json.readMembers (fields.map Field.reader) keep ((fs.map Field.name).reverse ++ seen)
        (fs.foldl (fun acc f => f.assign r acc) acc) (Json.memberDrafts rest) := by
  induction fs generalizing seen acc with
  | nil => rfl
  | cons f fs ih =>
      obtain ⟨hf, hfs⟩ := List.forall_mem_cons.mp hfs
      obtain ⟨hnew, hseen⟩ := List.forall_mem_cons.mp hseen
      obtain ⟨hfirst, hnames⟩ := List.nodup_cons.mp hnames
      have hseen' : ∀ g ∈ fs, g.name ∉ f.name :: seen := by
        intro g hg hmem
        rcases List.mem_cons.mp hmem with hsame | hmem
        · exact hfirst (hsame ▸ List.mem_map_of_mem hg)
        · exact hseen g hg hmem
      rw [List.map_cons, List.cons_append, Json.memberDrafts, readMembers_known hf, if_neg hnew,
        read_value, List.map_cons, List.reverse_cons, List.append_assoc]
      exact ih hfs hnames hseen' (f.assign r acc)

/-- Other members are read back, behind those that are there. -/
theorem readMembers_others {ms : List (String × Value)} (hunknown : ∀ p ∈ ms, p.1 ∉ knownNames)
    (hreadable : ∀ p ∈ ms, p.2.Readable (depth - 1)) (seen : List String)
    {acc : RecordDocument} (hnames : ((acc.extra ++ ms).map Prod.fst).Nodup) :
    Json.readMembers (fields.map Field.reader) keep seen acc (Json.memberDrafts ms) =
      .ok (seen, { acc with extra := acc.extra ++ ms }) := by
  induction ms generalizing acc with
  | nil =>
      rw [List.append_nil]
      rfl
  | cons m ms ih =>
      obtain ⟨name, v⟩ := m
      obtain ⟨hname, hunknown⟩ := List.forall_mem_cons.mp hunknown
      obtain ⟨hv, hreadable⟩ := List.forall_mem_cons.mp hreadable
      have hnew : name ∉ acc.extra.map Prod.fst := by
        rw [List.map_append, List.nodup_append] at hnames
        exact fun hmem => hnames.2.2 name hmem name List.mem_cons_self rfl
      have hput : Pairs.put name v acc.extra = acc.extra ++ [(name, v)] :=
        Pairs.alter_of_not_mem hnew
      rw [List.append_cons] at hnames ⊢
      rw [Json.memberDrafts, readMembers_unknown hname, keep, hv.value_draft, ← hput]
      rw [← hput] at hnames
      exact ih hunknown hreadable hnames

/-- A plain record is read back as it was written. -/
theorem IsPlain.ofJson_text {r : RecordDocument} (h : r.IsPlain) :
    ofJson r.toJson.text = .ok r := by
  have hmembers : Json.readMembers (fields.map Field.reader) keep [] empty
      (Json.memberDrafts (written r ++ r.extra)) =
      .ok (((present r).map Field.name).reverse ++ [], r) := by
    rw [written, readMembers_fields (fun f hf => (present_sublist r).subset hf)
      (nodup_knownNames.sublist ((present_sublist r).map Field.name))
      (fun f _ => List.not_mem_nil), foldl_assign_present]
    exact readMembers_others h.unknown h.readable _ h.nodup
  rw [ofJson, h.readable_toJson.builds.ofText_text, toJson_eq, Value.draft, Document.read, ofDraft,
    hmembers]
  rfl

/-! ## What a record carries -/

/-- What stands in a collection after some puts was there before or was put in. -/
theorem forall_mem_foldl_put {P : String × Value → Prop} {ps ms : List (String × Value)}
    (hps : ∀ p ∈ ps, P p) (hms : ∀ m ∈ ms, P m) :
    ∀ p ∈ ms.foldl (fun ps m => Pairs.put m.1 m.2 ps) ps, P p := by
  induction ms generalizing ps with
  | nil => exact hps
  | cons m ms ih =>
      obtain ⟨hm, hms⟩ := List.forall_mem_cons.mp hms
      exact ih (Pairs.forall_mem_alter hps fun _ => hm) hms

/-- A record carries what a text holds: it is read back from how it is written, and written again
in the same way; its other members are no known fields; and written they stand behind the known
fields, all names different, in the order in which these came first in the text, each with the
value that came last. -/
structure Carries (r : RecordDocument) (s : String) : Prop where
  readBack : ofJson r.toJson.text = .ok r
  rewritten : ∀ r', ofJson r.toJson.text = .ok r' → r'.toJson.text = r.toJson.text
  unknown : ∀ p ∈ r.extra, p.1 ∉ knownNames
  passed : ∃ known ms,
    members r.toJson.text = .ok (known ++ r.extra) ∧
      (∀ p ∈ known, p.1 ∈ knownNames) ∧
      ((known ++ r.extra).map Prod.fst).Nodup ∧
      members s = .ok ms ∧
      r.extra.map Prod.fst = ((others ms).map Prod.fst).eraseDups ∧
      ∀ p ∈ r.extra, Pairs.latest? p.1 ms = some p.2

theorem members_of_ofJson {s : String} {r : RecordDocument} (h : ofJson s = .ok r) :
    ∃ ms, members s = .ok ms ∧
      r.extra = (others ms).foldl (fun ps m => Pairs.put m.1 m.2 ps) [] ∧
      (Json.WithoutFloating s → ∀ p ∈ ms, p.2.Readable (depth - 1)) := by
  obtain ⟨r', hread, h⟩ := bind_eq_ok_iff.mp h
  have hr : r' = r := by
    split at h
    · cases h
    · exact Except.ok.inj h
  subst hr
  cases hdraft : (Document.ofText s).draft with
  | leaf l | list items ending =>
      rw [hdraft] at hread
      obtain ⟨_, -, hread⟩ := bind_eq_ok_iff.mp hread
      cases hread
  | object ds ending =>
      rw [hdraft] at hread
      obtain ⟨⟨seen, r'⟩, hmembers, hread⟩ := bind_eq_ok_iff.mp hread
      obtain ⟨_, -, hread⟩ := bind_eq_ok_iff.mp hread
      cases hread
      obtain ⟨ms, hms, hextra⟩ := extra_of_readMembers hmembers
      refine ⟨ms, ?_, hextra, fun hwhole => ?_⟩
      · rw [members, hdraft]
        exact hms
      · have hholds := hwhole.holds
        rw [hdraft] at hholds
        cases hholds with
        | object hds => exact readable_of_mapM_member hds hms

/-- The other members have the names of the text, in the order in which these came first. -/
theorem names_foldl_put (ms : List (String × Value)) :
    (ms.foldl (fun ps m => Pairs.put m.1 m.2 ps) []).map Prod.fst =
      (ms.map Prod.fst).eraseDups := by
  have hnone : ([] : List (String × Value)).map Prod.fst = ([] : List String).eraseDups := rfl
  exact keys_foldl (fun ps m => Pairs.keys_alter m.1 (fun _ => m.2) ps) hnone ms

theorem find?_foldl_put (name : String) (ms : List (String × Value)) :
    Pairs.find? name (ms.foldl (fun ps m => Pairs.put m.1 m.2 ps) []) =
      Pairs.latest? name ms := by
  have hrun := found_foldl (Pairs.find? name)
    (fun ps m => Pairs.find?_alter m.1 name (fun _ => m.2) ps) [] ms
  exact hrun.trans Option.or_none

theorem latest?_others {name : String} (hname : name ∉ knownNames) (ms : List (String × Value)) :
    Pairs.latest? name (others ms) = Pairs.latest? name ms := by
  rw [Pairs.latest?, others, ← List.filter_reverse, List.find?_filter, Pairs.latest?]
  congr 2
  funext m
  by_cases hm : m.1 = name
  · simp [hm, hname]
  · simp [hm]

theorem isPlain_of_ofJson {s : String} (hs : Json.WithoutFloating s) {r : RecordDocument}
    (h : ofJson s = .ok r) : r.IsPlain := by
  obtain ⟨ms, -, hextra, hreadable⟩ := members_of_ofJson h
  have hothers : ∀ p ∈ others ms, p.1 ∉ knownNames ∧ p.2.Readable (depth - 1) := by
    intro p hp
    obtain ⟨hmem, hunknown⟩ := List.mem_filter.mp hp
    exact ⟨of_decide_eq_true hunknown, hreadable hs p hmem⟩
  have hall := forall_mem_foldl_put (List.forall_mem_nil _) hothers
  rw [← hextra] at hall
  refine ⟨?_, fun p hp => (hall p hp).1, fun p hp => (hall p hp).2⟩
  rw [hextra, names_foldl_put]
  exact nodup_eraseDups _

theorem mapM_member_memberDrafts {ms : List (String × Value)}
    (h : ∀ p ∈ ms, p.2.Readable (depth - 1)) :
    (Json.memberDrafts ms).mapM member = .ok ms := by
  induction ms with
  | nil => rfl
  | cons m ms ih =>
      obtain ⟨hm, hms⟩ := List.forall_mem_cons.mp h
      rw [Json.memberDrafts, List.mapM_cons, member, hm.value_draft, ih hms]
      rfl

/-- The text of a plain record has the fields that are written and then the other members. -/
theorem IsPlain.members_text {r : RecordDocument} (h : r.IsPlain) :
    members r.toJson.text = .ok (written r ++ r.extra) := by
  have hvalues : ∀ p ∈ written r ++ r.extra, p.2.Readable (depth - 1) := by
    cases h.readable_toJson with
    | object _ _ hvalues => exact hvalues
  rw [members, h.readable_toJson.builds.ofText_text, toJson_eq, Value.draft]
  exact mapM_member_memberDrafts hvalues

/-- What a text holds is carried by every record with the other members of the one that it
writes. -/
theorem carries_of_extra_eq {s : String} (hs : Json.WithoutFloating s) {r₀ r : RecordDocument}
    (h : ofJson s = .ok r₀) (hextra : r.extra = r₀.extra) : r.Carries s := by
  have hplain₀ := isPlain_of_ofJson hs h
  have hplain : r.IsPlain := by
    refine ⟨?_, ?_, ?_⟩
    · exact hextra ▸ hplain₀.nodup
    · exact hextra ▸ hplain₀.unknown
    · exact hextra ▸ hplain₀.readable
  obtain ⟨ms, hms, hrun, -⟩ := members_of_ofJson h
  rw [← hextra] at hrun
  refine ⟨hplain.ofJson_text, fun r' hr' => ?_, hplain.unknown, written r, ms,
    hplain.members_text, mem_knownNames_of_written, hplain.nodup_names, hms, ?_, fun p hp => ?_⟩
  · rw [Except.ok.inj (hr'.symm.trans hplain.ofJson_text)]
  · rw [hrun, names_foldl_put]
  · rw [← latest?_others (hplain.unknown p hp), ← find?_foldl_put, ← hrun]
    exact Pairs.find?_eq_some_of_mem hplain.nodup hp

/-- Records survive being written. A record that was read from a text without floating numbers
carries what the text holds, and so it does when a tagger has set its labels, whatever tagger it
is and whatever time. -/
theorem carries_of_ofJson {s : String} {r : RecordDocument} (h : ofJson s = .ok r)
    (hs : Json.WithoutFloating s) :
    r.Carries s ∧ ∀ (t : Tagger) (now : Instant), (t.label now r).Carries s :=
  ⟨carries_of_extra_eq hs h rfl, fun _ _ => carries_of_extra_eq hs h rfl⟩

/-- Pages are given twice. -/
def repeatedPages : String :=
  "\x7b\"pages\":\"1\\u002d2\",\"x.labels\":[\"old\"]," ++
    "\"url\":\"\",\"pages\":[-7,\x7b\"to\":null\x7d]\x7d"

/-- The record of these pages: they stand where they were given first. -/
def lastPages : RecordDocument :=
  { empty with
    labels := ["old"]
    extra := [("pages", .array [.number (.int (-7)), .object [("to", .null)]]),
      ("url", .string "")] }

theorem carries_of_ofJson_repeatedPages :
    ofJson repeatedPages = .ok lastPages ∧ Json.WithoutFloating repeatedPages ∧
      lastPages.Carries repeatedPages ∧
      ∀ (t : Tagger) (now : Instant), (t.label now lastPages).Carries repeatedPages := by
  have hread : ofJson repeatedPages = .ok lastPages := by cbv
  have hwhole : Json.WithoutFloating repeatedPages := by
    unfold Json.WithoutFloating
    decide +kernel
  exact ⟨hread, hwhole, carries_of_ofJson hread hwhole⟩

end RecordDocument

end Holdings
