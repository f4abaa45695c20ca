import Holdings.Proofs.Merging
import Holdings.Proofs.Skipping
/-!
# What each record brings

A lenient reading lets every record bring its share: the licences that it grants and what is
counted on the way. No share depends on the records before it, so what is read from a document is
the total of the shares of its records (`Survey.read_lenient_eq`), and records that stand next to
each other bring together what they bring apart.
-/

namespace Holdings

/-- What two readings have counted between them. -/
def Report.plus (a b : Report) : Report where
  records := a.records + b.records
  entries := a.entries + b.entries
  missingIdentifiers := a.missingIdentifiers + b.missingIdentifiers
  incompleteLines := a.incompleteLines + b.incompleteLines
  invalidEmbargo := a.invalidEmbargo + b.invalidEmbargo
  malformedRecords := a.malformedRecords + b.malformedRecords

namespace Report

@[simp] theorem plus_empty (a : Report) : a.plus .empty = a := rfl

@[simp] theorem empty_plus (a : Report) : empty.plus a = a := by
  simp [plus, empty]

theorem plus_assoc (a b c : Report) : (a.plus b).plus c = a.plus (b.plus c) := by
  simp [plus, Nat.add_assoc]

theorem plus_count (a : Report) (fault : RecordFault) :
    a.plus (empty.count fault) = a.count fault := by
  cases fault <;> rfl

end Report

namespace Reading

/-- Two readings put together: the licences of the second come after those of the first. -/
def plus (a b : Reading) : Reading := ⟨a.registry.merge b.registry, a.report.plus b.report⟩

/-- Readings put together in their order. -/
def total (rs : List Reading) : Reading := rs.foldl plus .empty

@[simp] theorem plus_empty (a : Reading) : a.plus .empty = a := rfl

@[simp] theorem empty_plus (a : Reading) : empty.plus a = a := by
  simp [plus, empty]

theorem plus_assoc (a b c : Reading) : (a.plus b).plus c = a.plus (b.plus c) := by
  simp [plus, Registry.merge_assoc, Report.plus_assoc]

instance : Std.Associative plus := ⟨plus_assoc⟩

@[simp] theorem total_nil : total [] = .empty := rfl

theorem total_cons (r : Reading) (rs : List Reading) : total (r :: rs) = r.plus (total rs) := by
  have h : rs.foldl plus (r.plus .empty) = r.plus (rs.foldl plus .empty) := List.foldl_assoc
  rw [plus_empty] at h
  rw [total, List.foldl_cons, empty_plus, h, total]

theorem total_append (rs ss : List Reading) :
    total (rs ++ ss) = (total rs).plus (total ss) := by
  induction rs with
  | nil => simp
  | cons r rs ih => rw [List.cons_append, total_cons, total_cons, ih, plus_assoc]

/-! ## Steps of a lenient reading -/

/-- A step that adds the same to every reading. -/
def Adds (step : Reading → Except RecordFault Reading) (share : Reading) : Prop :=
  ∀ r, step r = .ok (r.plus share)

/-- If every step of a run adds the share of its item, the run adds the total of all shares. -/
theorem adds_foldlM {α : Type} {step : Reading → α → Except RecordFault Reading}
    {share : α → Reading} (h : ∀ a, Adds (step · a) (share a)) (as : List α) :
    Adds (fun r => as.foldlM step r) (total (as.map share)) := by
  intro r
  induction as generalizing r with
  | nil => rfl
  | cons a as ih =>
      have hstep : step r a = .ok (r.plus (share a)) := h a r
      rw [List.map_cons, total_cons, ← plus_assoc]
      simp only [List.foldlM_cons, hstep]
      exact ih (r.plus (share a))

/-- What a fault brings that is skipped. -/
def ofFault (fault : RecordFault) : Reading := ⟨.empty, Report.empty.count fault⟩

/-- What a licence brings that is filed under some identifiers. -/
def ofLicence (ids : List String) : Except RecordFault Licence → Reading
  | .ok l => empty.file ids l
  | .error fault => ofFault fault

theorem adds_skip (fault : RecordFault) : Adds (skip .lenient · fault) (ofFault fault) := by
  intro r
  dsimp only
  rw [skip, SkipPolicy.allows_lenient, if_pos rfl]
  simp [plus, ofFault, Report.plus_count]

theorem merge_foldl_insert (r s : Registry) (ids : List String) (l : Licence) :
    r.merge (ids.foldl (fun registry id => registry.insert id l) s) =
      ids.foldl (fun registry id => registry.insert id l) (r.merge s) := by
  induction ids generalizing s with
  | nil => rfl
  | cons id ids ih => rw [List.foldl_cons, List.foldl_cons, ih, Registry.merge_insert]

theorem file_eq_plus (r : Reading) (ids : List String) (l : Licence) :
    r.file ids l = r.plus (empty.file ids l) := by
  have hregistry := merge_foldl_insert r.registry .empty ids l
  rw [Registry.merge_empty] at hregistry
  simp [file, plus, empty, Report.plus, Report.empty, hregistry]

theorem adds_absorbLicence (ids : List String) (l : Except RecordFault Licence) :
    Adds (absorbLicence .lenient ids · l) (ofLicence ids l) := by
  intro r
  cases l with
  | ok l => exact congrArg _ (r.file_eq_plus ids l)
  | error fault => exact adds_skip fault r

end Reading

/-- What a record brings. -/
def Outcome.share : Outcome → Reading
  | .refused fault => Reading.empty.begun.plus (.ofFault fault)
  | .granted ids licences =>
    Reading.empty.begun.plus (.total (licences.map (Reading.ofLicence ids)))

namespace Reading

theorem begun_eq_plus (r : Reading) : r.begun = r.plus empty.begun := rfl

theorem adds_absorb (o : Outcome) : Adds (absorb .lenient · o) o.share := by
  intro r
  dsimp only
  cases o with
  | refused fault =>
      have h : absorb .lenient r (.refused fault) = .ok (r.begun.plus (.ofFault fault)) :=
        adds_skip fault r.begun
      rw [h, begun_eq_plus, plus_assoc]
      rfl
  | granted ids licences =>
      have h : absorb .lenient r (.granted ids licences) =
          .ok (r.begun.plus (total (licences.map (ofLicence ids)))) :=
        adds_foldlM (adds_absorbLicence ids) licences r.begun
      rw [h, begun_eq_plus, plus_assoc]
      rfl

end Reading

/-! ## Whole documents -/

/-- What some records bring together. -/
def shares (os : List Outcome) : Reading := .total (os.map Outcome.share)

theorem shares_append (os os' : List Outcome) :
    shares (os ++ os') = (shares os).plus (shares os') := by
  rw [shares, List.map_append, Reading.total_append]
  rfl

/-- A lenient reading is the total of the shares of all records, if these end with the document. -/
theorem Survey.read_lenient_eq (s : Survey) :
    s.read .lenient = s.ending.close (shares s.outcomes) := by
  have h : s.outcomes.foldlM (Reading.absorb .lenient) .empty = .ok (shares s.outcomes) := by
    rw [← Reading.empty_plus (shares s.outcomes)]
    exact Reading.adds_foldlM Reading.adds_absorb s.outcomes .empty
  rw [read, h]
  rfl

/-- A record that is read alone brings its share. -/
theorem Survey.read_singleton (o : Outcome) :
    (⟨[o], .complete⟩ : Survey).read .lenient = .ok o.share := by
  rw [read_lenient_eq, shares, List.map_singleton, Reading.total_cons]
  rfl

/-- A record is counted once, whatever it brings. -/
theorem Outcome.records_share (o : Outcome) : o.share.report.records = 1 := by
  have hlicence : ∀ ids l, (Reading.ofLicence ids l).report.records = 0 := by
    intro ids l
    cases l with
    | ok l => rfl
    | error fault => cases fault <;> rfl
  have htotal : ∀ ids (ls : List (Except RecordFault Licence)),
      (Reading.total (ls.map (Reading.ofLicence ids))).report.records = 0 := by
    intro ids ls
    induction ls with
    | nil => rfl
    | cons l ls ih =>
        rw [List.map_cons, Reading.total_cons]
        show (Reading.ofLicence ids l).report.records + _ = 0
        rw [hlicence, ih]
  cases o with
  | refused fault => cases fault <;> rfl
  | granted ids ls =>
      show 1 + _ = 1
      rw [htotal]

end Holdings
