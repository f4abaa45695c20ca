import Holdings.Proofs.History
import Holdings.Proofs.Identifiers
import Holdings.Proofs.Shares
/-!
# What a report accounts for

The registry of a reading is the collection of all that its records file (`Outcome.grants`), and an
entry is counted for each of these licences, so the report and the registry agree whatever the
document. Every record is counted once. What it is skipped for is counted as well: a row of a table
is either skipped, once, or files a licence, and an element is at most once without identifiers or
malformed, while each of its licences may be at fault by itself (`Format.parse_accounts`).
-/

namespace Holdings

/-! ## What is filed -/

/-- What a licence files under some identifiers. -/
def filings (ids : List String) : Except RecordFault Licence → List (String × Licence)
  | .ok l => ids.map fun id => (id, l)
  | .error _ => []

/-- The licences that a record files, each under all identifiers of the record. -/
def Outcome.grants : Outcome → List (String × Licence)
  | .refused _ => []
  | .granted ids licences => licences.flatMap (filings ids)

namespace Reading

/-- A reading has filed some licences and nothing else, and counted an entry for each. -/
structure Files (r : Reading) (history : List (String × Licence)) : Prop where
  registry : r.registry = .ofList history
  entries : r.report.entries = history.length

theorem files_empty : empty.Files [] := ⟨rfl, rfl⟩

theorem Files.plus {a b : Reading} {xs ys : List (String × Licence)} (ha : a.Files xs)
    (hb : b.Files ys) : (a.plus b).Files (xs ++ ys) where
  registry := by
    show a.registry.merge b.registry = _
    rw [ha.registry, hb.registry, Registry.merge_ofList]
  entries := by
    show a.report.entries + b.report.entries = _
    rw [ha.entries, hb.entries, List.length_append]

theorem files_total {α : Type} {share : α → Reading} {history : α → List (String × Licence)}
    (h : ∀ a, (share a).Files (history a)) (as : List α) :
    (total (as.map share)).Files (as.flatMap history) := by
  induction as with
  | nil => exact files_empty
  | cons a as ih =>
      rw [List.map_cons, total_cons, List.flatMap_cons]
      exact (h a).plus ih

theorem files_ofFault (fault : RecordFault) : (ofFault fault).Files [] := by
  cases fault <;> exact ⟨rfl, rfl⟩

theorem files_ofLicence (ids : List String) (l : Except RecordFault Licence) :
    (ofLicence ids l).Files (filings ids l) := by
  cases l with
  | error fault => exact files_ofFault fault
  | ok l =>
      refine ⟨?_, ?_⟩
      · show ids.foldl (fun registry id => registry.insert id l) Registry.empty = _
        rw [filings, Registry.ofList, Registry.extend, List.foldl_map]
      · show 0 + ids.length = _
        rw [filings, List.length_map, Nat.zero_add]

end Reading

theorem Outcome.files_share (o : Outcome) : o.share.Files o.grants := by
  have hbegun : Reading.empty.begun.Files [] := ⟨rfl, rfl⟩
  cases o with
  | refused fault => exact hbegun.plus (Reading.files_ofFault fault)
  | granted ids licences =>
      exact hbegun.plus (Reading.files_total (Reading.files_ofLicence ids) licences)

theorem files_shares (os : List Outcome) : (shares os).Files (os.flatMap Outcome.grants) :=
  Reading.files_total Outcome.files_share os

theorem records_shares (os : List Outcome) : (shares os).report.records = os.length := by
  induction os with
  | nil => rfl
  | cons o os ih =>
      rw [shares, List.map_cons, Reading.total_cons, List.length_cons]
      show o.share.report.records + (shares os).report.records = _
      rw [o.records_share, ih, Nat.add_comm]

/-- Each record that files something files at least one licence. -/
theorem Outcome.countP_grants_le (os : List Outcome) :
    (os.countP fun o => !o.grants.isEmpty) ≤ (os.flatMap grants).length := by
  induction os with
  | nil => exact Nat.le_refl 0
  | cons o os ih =>
      rw [List.countP_cons, List.flatMap_cons, List.length_append]
      cases ho : o.grants with
      | nil => simpa using ih
      | cons p ps =>
          simp only [List.isEmpty_cons, Bool.not_false, if_true, List.length_cons]
          omega

/-! ## What is counted -/

/-- A reading that succeeds has taken in all records and counted all faults, under any policy. -/
theorem Survey.read_eq_ok {s : Survey} {p : SkipPolicy} {r : Reading} (h : s.read p = .ok r) :
    r = shares s.outcomes ∧ ∀ k, r.report.counter k = s.faults.countP fun f => f.kind = k := by
  have hlenient := ((s.read_eq_ok_iff p r).mp h).1
  have hshares := s.read_lenient_eq
  obtain ⟨r', hread, hcounter⟩ := s.read_lenient
  rw [hlenient] at hread hshares
  obtain ⟨-, rfl⟩ := Ending.close_eq_ok_iff.mp hread.symm
  exact ⟨(Ending.close_eq_ok_iff.mp hshares.symm).2.symm, hcounter⟩

/-- Every fault is of one kind. -/
theorem sum_countP_kind (faults : List RecordFault) :
    (faults.countP fun f => f.kind = .missingIdentifiers) +
        (faults.countP fun f => f.kind = .incompleteLine) +
        (faults.countP fun f => f.kind = .invalidEmbargo) +
        (faults.countP fun f => f.kind = .malformed) = faults.length := by
  induction faults with
  | nil => rfl
  | cons f faults ih =>
      simp only [List.countP_cons, List.length_cons]
      cases f.kind <;> simp <;> omega

theorem Report.skipped_eq_length {r : Report} {faults : List RecordFault}
    (h : ∀ k, r.counter k = faults.countP fun f => f.kind = k) : r.skipped = faults.length := by
  have hsum := sum_countP_kind faults
  rw [← h .missingIdentifiers, ← h .incompleteLine, ← h .invalidEmbargo, ← h .malformed] at hsum
  exact hsum

/-! ## Records with identifiers in normal form -/

/-- What a record files stands under identifiers that are not empty and that are keys. -/
def Outcome.UnderKeys (o : Outcome) : Prop :=
  ∀ p ∈ o.grants, p.1 ≠ "" ∧ Issn.normalize p.1 = p.1

/-- A record is refused for lack of identifiers, or granted for those of its identifiers that are
not empty, of which there are some. -/
theorem Outcome.ofRecord_cases (record : Nat) (ids : List String)
    (licences : List (Except RecordFault Licence)) :
    ofRecord record ids licences = .refused (.missingIdentifiers record) ∨
      distinct ids ≠ [] ∧ ofRecord record ids licences = .granted (distinct ids) licences := by
  unfold ofRecord
  split
  · exact .inl rfl
  · next hne => exact .inr ⟨hne, rfl⟩

theorem Outcome.underKeys_ofRecord {ids : List String} (h : ∀ id ∈ ids, Issn.normalize id = id)
    (record : Nat) (licences : List (Except RecordFault Licence)) :
    (ofRecord record ids licences).UnderKeys := by
  rcases ofRecord_cases record ids licences with hrefused | ⟨-, hgranted⟩
  · rw [hrefused]
    exact List.forall_mem_nil _
  · rw [hgranted]
    intro p hp
    obtain ⟨l, -, hp⟩ := List.mem_flatMap.mp hp
    cases l with
    | error fault => cases hp
    | ok l =>
        obtain ⟨id, hid, rfl⟩ := List.mem_map.mp hp
        obtain ⟨hmem, hne⟩ := mem_distinct.mp hid
        refine ⟨?_, h id hmem⟩
        rintro rfl
        cases hne

/-! ## Tables -/

namespace Kbart

open Rows

theorem normalize_of_mem_identifiers (row : Row) :
    ∀ id ∈ identifiers row, Issn.normalize id = id := by
  intro id hid
  rcases List.mem_cons.mp hid with rfl | hid
  · exact Issn.normalize_normalize _
  rcases List.mem_cons.mp hid with rfl | hid
  · exact Issn.normalize_normalize _
  · obtain ⟨s, hs, rfl⟩ := List.mem_map.mp hid
    exact Issn.normalize_of_mem_findAll hs

/-- A row is skipped, for one fault, or it files a licence and has no fault. -/
theorem outcome_cases (row : Row) :
    (∃ fault, outcome row = .refused fault ∧ fault.kind ≠ .malformed) ∨
      ∃ l, distinct (identifiers row) ≠ [] ∧
        outcome row = .granted (distinct (identifiers row)) [.ok l] := by
  unfold outcome
  split
  · exact .inl ⟨_, rfl, nofun⟩
  · split
    · next fault hfault =>
        have hquoted := (Embargo.orQuoted_eq_error_iff.mp hfault).2
        exact .inl ⟨fault, rfl, hquoted ▸ nofun⟩
    · rcases Outcome.ofRecord_cases row.line (identifiers row) _ with hrefused | ⟨hne, hgranted⟩
      · exact .inl ⟨_, hrefused, nofun⟩
      · exact .inr ⟨_, hne, hgranted⟩

theorem underKeys_outcome (row : Row) : (outcome row).UnderKeys := by
  unfold outcome
  split
  · exact List.forall_mem_nil _
  · split
    · exact List.forall_mem_nil _
    · exact Outcome.underKeys_ofRecord (normalize_of_mem_identifiers row) _ _

theorem length_faults_outcome (row : Row) :
    (outcome row).faults.length = if (outcome row).grants.isEmpty then 1 else 0 := by
  rcases outcome_cases row with ⟨fault, hrefused, -⟩ | ⟨l, hne, hgranted⟩
  · rw [hrefused]
    rfl
  · obtain ⟨id, ids, hids⟩ := List.exists_cons_of_ne_nil hne
    rw [hgranted, hids]
    rfl

theorem kind_of_mem_faults_outcome (row : Row) :
    ∀ fault ∈ (outcome row).faults, fault.kind ≠ .malformed := by
  rcases outcome_cases row with ⟨fault, hrefused, hkind⟩ | ⟨l, -, hgranted⟩
  · rw [hrefused]
    intro f hf
    rw [List.mem_singleton.mp hf]
    exact hkind
  · rw [hgranted]
    exact List.forall_mem_nil _

/-- Every row is skipped or files something. -/
theorem length_eq_faults_add_countP (rows : List Row) :
    (rows.map outcome).length = ((rows.map outcome).flatMap Outcome.faults).length +
      (rows.map outcome).countP fun o => !o.grants.isEmpty := by
  induction rows with
  | nil => rfl
  | cons row rows ih =>
      have hrow := length_faults_outcome row
      rw [List.map_cons, List.length_cons, List.flatMap_cons, List.length_append, List.countP_cons,
        hrow, ih]
      cases (outcome row).grants.isEmpty with
      | true => simp only [Bool.not_true, Bool.false_eq_true, if_true, if_false]; omega
      | false => simp only [Bool.not_false, Bool.false_eq_true, if_true, if_false]; omega

end Kbart

/-! ## Elements -/

namespace Markup

open Xml

/-- What is granted is a record with identifiers in normal form, of whose licences at most the
embargo can be at fault. -/
def Orderly (grant : Nat → Node → Option Outcome) : Prop :=
  ∀ index node o, grant index node = some o → ∃ ids licences,
    o = .ofRecord index ids licences ∧ (∀ id ∈ ids, Issn.normalize id = id) ∧
      ∀ l ∈ licences, ∀ fault, l = .error fault → fault.kind = .invalidEmbargo

theorem childOf?_eq_some {α : Type} {fs : List Field} {key : String} {read : Node → Option α}
    {default a : α} (h : childOf? fs key read default = some a) :
    a = default ∨ ∃ n, read n = some a := by
  unfold childOf? at h
  split at h
  · exact .inl (Option.some.inj h).symm
  · next n _ _ => exact .inr ⟨n, h⟩

theorem exists_of_mem_listOf? {α : Type} {fs : List Field} {key : String} {read : Node → Option α}
    {as : List α} (h : listOf? fs key read = some as) : ∀ a ∈ as, ∃ n, read n = some a := by
  unfold listOf? at h
  generalize nodesOf fs key = ns at h
  induction ns generalizing as with
  | nil =>
      cases h
      exact List.forall_mem_nil _
  | cons n ns ih =>
      rw [List.mapM_cons] at h
      obtain ⟨a, ha, h⟩ := Option.bind_eq_some_iff.mp h
      obtain ⟨as', has, h⟩ := Option.bind_eq_some_iff.mp h
      cases h
      exact List.forall_mem_cons.mpr ⟨⟨n, ha⟩, ih has⟩

end Markup

theorem Ezb.orderly_holding? : Markup.Orderly Ezb.holding? := by
  intro index node o h
  obtain ⟨fs, -, h⟩ := Option.bind_eq_some_iff.mp h
  obtain ⟨ids, hids, h⟩ := Option.bind_eq_some_iff.mp h
  obtain ⟨es, -, h⟩ := Option.bind_eq_some_iff.mp h
  refine ⟨ids, es.map Entitlement.licence, (Option.some.inj h).symm, ?_, ?_⟩
  · rcases Markup.childOf?_eq_some hids with rfl | ⟨n, hn⟩
    · exact List.forall_mem_nil _
    · obtain ⟨fs', -, hn⟩ := Option.bind_eq_some_iff.mp hn
      obtain ⟨print, -, hn⟩ := Option.bind_eq_some_iff.mp hn
      obtain ⟨electronic, -, hn⟩ := Option.bind_eq_some_iff.mp hn
      rw [← Option.some.inj hn]
      exact List.forall_mem_map.mpr fun id _ => Issn.normalize_normalize id
  · intro l hl fault hfault
    obtain ⟨e, -, rfl⟩ := List.mem_map.mp hl
    rw [Entitlement.licence] at hfault
    rw [Embargo.eq_of_map_orQuoted hfault]
    rfl

theorem Google.orderly_item? : Markup.Orderly Google.item? := by
  intro index node o h
  obtain ⟨fs, -, h⟩ := Option.bind_eq_some_iff.mp h
  obtain ⟨ids, -, h⟩ := Option.bind_eq_some_iff.mp h
  obtain ⟨licences, hlicences, h⟩ := Option.bind_eq_some_iff.mp h
  refine ⟨ids.map Issn.normalize, licences, (Option.some.inj h).symm, ?_, ?_⟩
  · exact List.forall_mem_map.mpr fun id _ => Issn.normalize_normalize id
  · intro l hl fault hfault
    obtain ⟨n, hn⟩ := Markup.exists_of_mem_listOf? hlicences l hl
    obtain ⟨fs', -, hn⟩ := Option.bind_eq_some_iff.mp hn
    obtain ⟨first, -, hn⟩ := Option.bind_eq_some_iff.mp hn
    obtain ⟨last, -, hn⟩ := Option.bind_eq_some_iff.mp hn
    obtain ⟨days, -, hn⟩ := Option.bind_eq_some_iff.mp hn
    rw [← Option.some.inj hn] at hfault
    rw [licence] at hfault
    rw [Embargo.eq_of_map_orQuoted hfault]
    rfl

/-- Of the faults of a record none is an incomplete line, and at most one says that there are no
identifiers or that the record is malformed. -/
structure Outcome.FaultsOfElement (o : Outcome) : Prop where
  complete : ∀ fault ∈ o.faults, fault.kind ≠ .incompleteLine
  once : (o.faults.countP fun f => f.kind = .missingIdentifiers) +
    (o.faults.countP fun f => f.kind = .malformed) ≤ 1

theorem Outcome.faultsOfElement_refused {fault : RecordFault} (h : fault.kind ≠ .incompleteLine) :
    (refused fault).FaultsOfElement where
  complete := List.forall_mem_cons.mpr ⟨h, List.forall_mem_nil _⟩
  once := by cases fault <;> simp [faults, RecordFault.kind]

/-- Only embargos can be at fault in the licences of an element. -/
theorem Outcome.faultsOfElement_ofRecord {licences : List (Except RecordFault Licence)}
    (h : ∀ l ∈ licences, ∀ fault, l = .error fault → fault.kind = .invalidEmbargo)
    (record : Nat) (ids : List String) : (ofRecord record ids licences).FaultsOfElement := by
  rcases ofRecord_cases record ids licences with hrefused | ⟨-, hgranted⟩
  · rw [hrefused]
    exact faultsOfElement_refused nofun
  · have hkind : ∀ fault ∈ (ofRecord record ids licences).faults,
        fault.kind = .invalidEmbargo := by
      intro fault hfault
      rw [hgranted] at hfault
      obtain ⟨l, hl, hfault⟩ := List.mem_flatMap.mp hfault
      cases l with
      | ok l => cases hfault
      | error f =>
          rw [List.mem_singleton.mp hfault]
          exact h _ hl f rfl
    have hzero : ∀ k, k ≠ .invalidEmbargo →
        ((ofRecord record ids licences).faults.countP fun f => f.kind = k) = 0 := by
      intro k hk
      rw [List.countP_eq_zero]
      intro fault hfault
      rw [hkind fault hfault, decide_eq_true_eq]
      exact fun heq => hk heq.symm
    refine ⟨fun fault hfault => ?_, ?_⟩
    · rw [hkind fault hfault]
      exact nofun
    · rw [hzero .missingIdentifiers nofun, hzero .malformed nofun]
      exact Nat.zero_le 1

namespace Markup

variable {name : String} {grant : Nat → Xml.Node → Option Outcome}

/-- An element is malformed, or it is what is granted for it. -/
theorem outcome_cases (hgrant : Orderly grant) (source : List Char) (index : Nat) :
    (outcome name grant source index).UnderKeys ∧
      (outcome name grant source index).FaultsOfElement := by
  unfold outcome
  split
  · next o ho =>
    obtain ⟨node, -, hnode⟩ := Option.bind_eq_some_iff.mp ho
    obtain ⟨ids, licences, rfl, hids, hlicences⟩ := hgrant index node o hnode
    exact ⟨Outcome.underKeys_ofRecord hids index licences,
      Outcome.faultsOfElement_ofRecord hlicences index ids⟩
  · exact ⟨List.forall_mem_nil _, Outcome.faultsOfElement_refused nofun⟩

theorem forall_mem_outcomes (hgrant : Orderly grant) (bs : List UInt8) :
    ∀ o ∈ (survey name grant bs).outcomes, o.UnderKeys ∧ o.FaultsOfElement := by
  intro o ho
  obtain ⟨⟨source, index⟩, -, rfl⟩ := List.mem_map.mp ho
  exact outcome_cases hgrant source index

/-- Elements without identifiers and malformed ones are no more than all elements. -/
theorem countP_faults_le {os : List Outcome} (h : ∀ o ∈ os, o.FaultsOfElement) :
    ((os.flatMap Outcome.faults).countP fun f => f.kind = .missingIdentifiers) +
      ((os.flatMap Outcome.faults).countP fun f => f.kind = .malformed) ≤ os.length := by
  induction os with
  | nil => exact Nat.le_refl 0
  | cons o os ih =>
      obtain ⟨ho, hos⟩ := List.forall_mem_cons.mp h
      have hfirst := ho.once
      have hrest := ih hos
      rw [List.flatMap_cons, List.countP_append, List.countP_append, List.length_cons]
      omega

end Markup

/-! ## Whole documents -/

namespace Format

theorem survey_of_ne_kbart {f : Format} (h : f ≠ .kbart) :
    ∃ name grant, Markup.Orderly grant ∧ f.survey = Markup.survey name grant := by
  cases f with
  | kbart => exact absurd rfl h
  | ezb => exact ⟨_, _, Ezb.orderly_holding?, rfl⟩
  | google => exact ⟨_, _, Google.orderly_item?, rfl⟩

theorem underKeys_of_mem_survey (f : Format) (bs : List UInt8) :
    ∀ o ∈ (f.survey bs).outcomes, o.UnderKeys := by
  intro o ho
  by_cases hf : f = .kbart
  · subst hf
    obtain ⟨row, -, rfl⟩ := List.mem_map.mp ho
    exact Kbart.underKeys_outcome row
  · obtain ⟨name, grant, hgrant, hsurvey⟩ := survey_of_ne_kbart hf
    rw [hsurvey] at ho
    exact (Markup.forall_mem_outcomes hgrant bs o ho).1

/-- A report accounts for everything. What was read from a document, in whatever format and under
whatever policy, is the collection of what its records file. An entry is counted for each licence,
every identifier is a key that is not empty, and there is a licence under each. In a table no record
is malformed, and the rows that are not skipped are those that file a licence, so there are at most
as many of them as entries. Elsewhere no line is incomplete, and the elements without identifiers
and the malformed ones are no more than all elements. -/
theorem parse_accounts {f : Format} {p : SkipPolicy} {bs : List UInt8} {r : Reading}
    (h : f.parse p bs = .ok r) :
    r.registry = .ofList ((f.survey bs).outcomes.flatMap Outcome.grants) ∧
    r.report.entries = r.registry.licenceCount ∧
    (∀ id ∈ r.registry.identifiers, id ≠ "" ∧ Issn.normalize id = id) ∧
    (∀ x ∈ r.registry.toList, x.2 ≠ []) ∧
    (f = .kbart →
      r.report.malformedRecords = 0 ∧
      r.report.records - r.report.skipped =
        ((f.survey bs).outcomes.countP fun o => !o.grants.isEmpty) ∧
      r.report.skipped ≤ r.report.records ∧
      r.report.records ≤ r.report.skipped + r.report.entries) ∧
    (f ≠ .kbart →
      r.report.incompleteLines = 0 ∧
      r.report.missingIdentifiers + r.report.malformedRecords ≤ r.report.records) := by
  obtain ⟨rfl, hcounter⟩ := Survey.read_eq_ok h
  have hfiles := files_shares (f.survey bs).outcomes
  have hrecords := records_shares (f.survey bs).outcomes
  have hskipped := Report.skipped_eq_length hcounter
  have hcount : (shares (f.survey bs).outcomes).report.entries =
      (shares (f.survey bs).outcomes).registry.licenceCount := by
    rw [hfiles.entries, hfiles.registry, Registry.licenceCount_ofList]
  refine ⟨hfiles.registry, hcount, ?_, ?_, ?_, ?_⟩
  · intro id hid
    rw [hfiles.registry, Registry.identifiers_ofList, List.mem_eraseDups] at hid
    obtain ⟨p, hp, rfl⟩ := List.mem_map.mp hid
    obtain ⟨o, ho, hp⟩ := List.mem_flatMap.mp hp
    obtain ⟨hne, hkey⟩ := underKeys_of_mem_survey f bs o ho p hp
    rw [hkey]
    exact ⟨hne, hkey⟩
  · rw [hfiles.registry]
    exact Registry.forall_mem_toList_ofList _
  · rintro rfl
    have hrows : (Format.kbart.survey bs).outcomes.length =
        (Format.kbart.survey bs).faults.length +
          (Format.kbart.survey bs).outcomes.countP fun o => !o.grants.isEmpty :=
      Kbart.length_eq_faults_add_countP _
    have hgrants := Outcome.countP_grants_le (Format.kbart.survey bs).outcomes
    have hmalformed : (shares (Format.kbart.survey bs).outcomes).report.malformedRecords =
        (Format.kbart.survey bs).faults.countP fun f => f.kind = .malformed := hcounter .malformed
    refine ⟨?_, ?_, ?_, ?_⟩
    · rw [hmalformed, List.countP_eq_zero]
      intro fault hfault
      obtain ⟨o, ho, hfault⟩ := List.mem_flatMap.mp hfault
      obtain ⟨row, -, rfl⟩ := List.mem_map.mp ho
      simpa using Kbart.kind_of_mem_faults_outcome row fault hfault
    · omega
    · omega
    · rw [hfiles.entries]
      omega
  · intro hf
    obtain ⟨name, grant, hgrant, hsurvey⟩ := survey_of_ne_kbart hf
    have helements : ∀ o ∈ (f.survey bs).outcomes, o.FaultsOfElement := by
      intro o ho
      rw [hsurvey] at ho
      exact (Markup.forall_mem_outcomes hgrant bs o ho).2
    refine ⟨?_, ?_⟩
    · refine (hcounter .incompleteLine).trans ?_
      rw [List.countP_eq_zero]
      intro fault hfault
      obtain ⟨o, ho, hfault⟩ := List.mem_flatMap.mp hfault
      simpa using (helements o ho).complete fault hfault
    · rw [hrecords]
      refine Nat.le_trans (Nat.le_of_eq ?_) (Markup.countP_faults_le helements)
      exact congrArg₂ (· + ·) (hcounter .missingIdentifiers) (hcounter .malformed)

/-- A table whose first row names one serial in three columns and another one in the last of them.
The next rows are too short, without identifiers, with an embargo that cannot be read, and blank. -/
def repeatedSerial : List UInt8 :=
  Text.Utf8.encode ("title\tprint\nA\t12345678\t1234-5678" ++
    "\t\t\t\t\t\t\t\t\t\t\t\t\t\t\t\t\t\t\tsee 1234-5678 and 2222-2222\n" ++
    "B\t1111-1111\nC\t\t\t\t\t\t\t\t\t\t\t\t\nD\t3333-3333\t\t\t\t\t\t\t\t\t\t\tP1W\n\t\t\n").toList

/-- An item with a coverage, and an item without identifiers. -/
def twoItems : List UInt8 :=
  Text.Utf8.encode "<item><issn>12345678</issn><coverage/></item><item/>".toList

set_option maxRecDepth 1500 in
theorem parse_accounts_repeatedSerial :
    (∃ r, Format.kbart.parse ⟨true, true, true, false⟩ repeatedSerial = .ok r ∧
      r.report = ⟨4, 2, 1, 1, 1, 0⟩ ∧ r.registry.licenceCount = 2 ∧
      ((Format.kbart.survey repeatedSerial).outcomes.countP fun o => !o.grants.isEmpty) = 1) ∧
    ∃ r, Format.google.parse ⟨true, false, true, true⟩ twoItems = .ok r ∧
      r.report = ⟨2, 1, 1, 0, 0, 0⟩ ∧ r.registry.licenceCount = 1 := by
  have htable : (Format.kbart.parse ⟨true, true, true, false⟩ repeatedSerial).map Reading.report =
      .ok ⟨4, 2, 1, 1, 1, 0⟩ := by cbv
  have hitems : (Format.google.parse ⟨true, false, true, true⟩ twoItems).map Reading.report =
      .ok ⟨2, 1, 1, 0, 0, 0⟩ := by cbv
  constructor
  · cases h : Format.kbart.parse ⟨true, true, true, false⟩ repeatedSerial with
    | error fault =>
        rw [h] at htable
        cases htable
    | ok r =>
        rw [h] at htable
        have hreport : r.report = ⟨4, 2, 1, 1, 1, 0⟩ := Except.ok.inj htable
        obtain ⟨-, hentries, -, -, hrows, -⟩ := parse_accounts h
        rw [hreport] at hentries hrows
        exact ⟨r, rfl, hreport, hentries.symm, (hrows rfl).2.1.symm⟩
  · cases h : Format.google.parse ⟨true, false, true, true⟩ twoItems with
    | error fault =>
        rw [h] at hitems
        cases hitems
    | ok r =>
        rw [h] at hitems
        have hreport : r.report = ⟨2, 1, 1, 0, 0, 0⟩ := Except.ok.inj hitems
        obtain ⟨-, hentries, -⟩ := parse_accounts h
        rw [hreport] at hentries
        exact ⟨r, rfl, hreport, hentries.symm⟩

end Format

end Holdings
