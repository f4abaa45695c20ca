import Mathlib
import Holdings.Proofs.Torn
/-!
# What a policy decides

A reading meets the faults of a document in one order, whatever its policy. Under the lenient
policy it counts them all. Under any other policy it is the same reading, unless there is a fault
that may not be skipped: then it ends with the first of these. `Survey.read_eq` says this of
every survey, and since a counter counts exactly the faults of its kind, the report of the lenient
reading shows what every other policy would have done (`Format.parse_ok_iff_lenient`).
-/

namespace Holdings

/-- The kinds of faults that have a flag and a counter of their own. -/
inductive FaultKind where
  | missingIdentifiers
  | incompleteLine
  | invalidEmbargo
  | malformed
deriving DecidableEq

/-- The kind of a fault. -/
def RecordFault.kind : RecordFault → FaultKind
  | .missingIdentifiers _ => .missingIdentifiers
  | .incompleteLine .. => .incompleteLine
  | .invalidEmbargo _ => .invalidEmbargo
  | .malformed .. => .malformed

/-- The flag of a kind. -/
def SkipPolicy.flag (p : SkipPolicy) : FaultKind → Bool
  | .missingIdentifiers => p.missingIdentifiers
  | .incompleteLine => p.incompleteLines
  | .invalidEmbargo => p.invalidEmbargo
  | .malformed => p.malformedRecords

/-- The counter of a kind. -/
def Report.counter (r : Report) : FaultKind → Nat
  | .missingIdentifiers => r.missingIdentifiers
  | .incompleteLine => r.incompleteLines
  | .invalidEmbargo => r.invalidEmbargo
  | .malformed => r.malformedRecords

theorem SkipPolicy.allows_eq (p : SkipPolicy) (fault : RecordFault) :
    p.allows fault = p.flag fault.kind := by
  cases fault <;> rfl

theorem SkipPolicy.allows_lenient (fault : RecordFault) : lenient.allows fault = true := by
  cases fault <;> rfl

theorem Report.counter_count (r : Report) (fault : RecordFault) (k : FaultKind) :
    (r.count fault).counter k = r.counter k + [fault].countP fun f => f.kind = k := by
  cases fault <;> cases k <;> rfl

/-! ## The faults of a document -/

/-- The fault of a licence that cannot be read. -/
def licenceFaults : Except RecordFault Licence → List RecordFault
  | .ok _ => []
  | .error fault => [fault]

/-- The faults of a record, in the order in which a reading meets them. -/
def Outcome.faults : Outcome → List RecordFault
  | .refused fault => [fault]
  | .granted _ licences => licences.flatMap licenceFaults

/-- The faults of all records. -/
def Survey.faults (s : Survey) : List RecordFault := s.outcomes.flatMap Outcome.faults

/-- The first fault that a policy does not allow. -/
def SkipPolicy.firstDenied? (p : SkipPolicy) (faults : List RecordFault) : Option RecordFault :=
  faults.find? fun f => !p.allows f

theorem SkipPolicy.firstDenied?_eq_none_iff {p : SkipPolicy} {faults : List RecordFault} :
    p.firstDenied? faults = none ↔ ∀ f ∈ faults, p.flag f.kind = true := by
  simp [firstDenied?, allows_eq]

/-- What comes of a reading that a policy does not let pass a fault: the fault if there is one,
and otherwise the reading itself. -/
def orDenied {α : Type} (denied : Option RecordFault) (lenient : Except RecordFault α) :
    Except RecordFault α :=
  match denied with
  | some fault => .error fault
  | none => lenient

/-- A fault in an earlier part counts before those in a later one. -/
theorem orDenied_bind {α β : Type} (p : SkipPolicy) (before after : List RecordFault)
    (x : Except RecordFault α) (g : α → Except RecordFault β) {a : α} (hx : x = .ok a) :
    (orDenied (p.firstDenied? before) x >>= fun a => orDenied (p.firstDenied? after) (g a)) =
      orDenied (p.firstDenied? (before ++ after)) (x >>= g) := by
  unfold SkipPolicy.firstDenied?
  rw [List.find?_append]
  cases before.find? fun f => !p.allows f with
  | some fault => rfl
  | none => rw [hx]; rfl

namespace Reading

variable (p : SkipPolicy)

/-! ## Every step counts or is denied -/

theorem skip_eq (r : Reading) (fault : RecordFault) :
    r.skip p fault = orDenied (p.firstDenied? [fault]) (r.skip .lenient fault) := by
  simp only [skip, SkipPolicy.allows_lenient, if_true, SkipPolicy.firstDenied?, List.find?_cons,
    List.find?_nil]
  cases p.allows fault <;> rfl

theorem absorbLicence_eq (ids : List String) (r : Reading) (l : Except RecordFault Licence) :
    absorbLicence p ids r l =
      orDenied (p.firstDenied? (licenceFaults l)) (absorbLicence .lenient ids r l) := by
  cases l with
  | ok l => rfl
  | error fault => exact skip_eq p r fault

/-- Nothing stops a lenient reading, and it counts each fault that it meets once. -/
structure Counts (r : Reading) (faults : List RecordFault) (x : Except RecordFault Reading)
    (r' : Reading) : Prop where
  reads : x = .ok r'
  counter : ∀ k, r'.report.counter k = r.report.counter k + faults.countP fun f => f.kind = k

theorem Counts.bind {r r' r'' : Reading} {before after : List RecordFault}
    {x : Except RecordFault Reading} {g : Reading → Except RecordFault Reading}
    (hx : Counts r before x r') (hg : Counts r' after (g r') r'') :
    Counts r (before ++ after) (x >>= g) r'' where
  reads := by rw [hx.reads]; exact hg.reads
  counter k := by rw [hg.counter, hx.counter, List.countP_append, Nat.add_assoc]

theorem counts_skip (r : Reading) (fault : RecordFault) :
    Counts r [fault] (r.skip .lenient fault) { r with report := r.report.count fault } where
  reads := by simp [skip, SkipPolicy.allows_lenient]
  counter := r.report.counter_count fault

theorem exists_counts_absorbLicence (ids : List String) (r : Reading)
    (l : Except RecordFault Licence) :
    ∃ r', Counts r (licenceFaults l) (absorbLicence .lenient ids r l) r' := by
  cases l with
  | ok l => exact ⟨r.file ids l, rfl, fun k => by cases k <;> rfl⟩
  | error fault => exact ⟨_, counts_skip r fault⟩

/-! ## Runs of steps -/

section Run

variable {α : Type} (step : SkipPolicy → Reading → α → Except RecordFault Reading)
  {faultsOf : α → List RecordFault}

/-- If every step counts its faults, so does a lenient run over a list. -/
theorem exists_counts_foldlM (hc : ∀ r a, ∃ r', Counts r (faultsOf a) (step .lenient r a) r')
    (as : List α) (r : Reading) :
    ∃ r', Counts r (as.flatMap faultsOf) (as.foldlM (step .lenient) r) r' := by
  induction as generalizing r with
  | nil => exact ⟨r, rfl, fun _ => rfl⟩
  | cons a as ih =>
      obtain ⟨r', h⟩ := hc r a
      obtain ⟨r'', h'⟩ := ih r'
      rw [List.foldlM_cons, List.flatMap_cons]
      exact ⟨r'', h.bind h'⟩

/-- If every step is the lenient one up to the first denied fault, so is a run over a list. -/
theorem foldlM_eq (hc : ∀ r a, ∃ r', Counts r (faultsOf a) (step .lenient r a) r')
    (hs : ∀ r a, step p r a = orDenied (p.firstDenied? (faultsOf a)) (step .lenient r a))
    (as : List α) (r : Reading) :
    as.foldlM (step p) r =
      orDenied (p.firstDenied? (as.flatMap faultsOf)) (as.foldlM (step .lenient) r) := by
  induction as generalizing r with
  | nil => rfl
  | cons a as ih =>
      obtain ⟨r', h⟩ := hc r a
      rw [List.foldlM_cons, List.foldlM_cons, List.flatMap_cons, hs]
      simp only [ih]
      exact orDenied_bind p _ _ _ _ h.reads

end Run

/-- A reading that has begun one more record. -/
def begun (r : Reading) : Reading :=
  { r with report := { r.report with records := r.report.records + 1 } }

theorem counter_begun (r : Reading) (k : FaultKind) :
    r.begun.report.counter k = r.report.counter k := by
  cases k <;> rfl

theorem exists_counts_absorb (r : Reading) (o : Outcome) :
    ∃ r', Counts r o.faults (absorb .lenient r o) r' := by
  have h : ∃ r', Counts r.begun o.faults (absorb .lenient r o) r' := by
    cases o with
    | refused fault => exact ⟨_, counts_skip r.begun fault⟩
    | granted ids licences =>
        exact exists_counts_foldlM (fun p => absorbLicence p ids)
          (exists_counts_absorbLicence ids) licences r.begun
  obtain ⟨r', hr⟩ := h
  exact ⟨r', hr.reads, fun k => by rw [hr.counter, counter_begun]⟩

theorem absorb_eq (r : Reading) (o : Outcome) :
    absorb p r o = orDenied (p.firstDenied? o.faults) (absorb .lenient r o) := by
  cases o with
  | refused fault => exact skip_eq p r.begun fault
  | granted ids licences =>
      exact foldlM_eq p (fun p => absorbLicence p ids) (exists_counts_absorbLicence ids)
        (absorbLicence_eq p ids) licences r.begun

end Reading

/-! ## Whole documents -/

theorem Ending.close_eq_ok_iff {e : Ending} {r r' : Reading} :
    e.close r = .ok r' ↔ e = .complete ∧ r = r' := by
  cases e <;> simp [close]

namespace Survey

/-- A reading is the lenient one, unless there is a fault that its policy does not allow; the
first such fault counts before the end of the records. -/
theorem read_eq (s : Survey) (p : SkipPolicy) :
    s.read p = match p.firstDenied? s.faults with
      | some fault => .error (.record fault)
      | none => s.read .lenient := by
  rw [read, Reading.foldlM_eq p Reading.absorb Reading.exists_counts_absorb (Reading.absorb_eq p)]
  unfold faults
  cases p.firstDenied? (s.outcomes.flatMap Outcome.faults) <;> rfl

/-- The lenient reading counts all faults, and then it depends on where the records end. -/
theorem read_lenient (s : Survey) :
    ∃ r, s.read .lenient = s.ending.close r ∧
      ∀ k, r.report.counter k = s.faults.countP fun f => f.kind = k := by
  obtain ⟨r, h⟩ :=
    Reading.exists_counts_foldlM Reading.absorb Reading.exists_counts_absorb s.outcomes .empty
  refine ⟨r, ?_, ?_⟩
  · rw [read, h.reads]
    rfl
  · intro k
    rw [h.counter]
    cases k <;> exact Nat.zero_add _

theorem read_eq_ok_iff (s : Survey) (p : SkipPolicy) (r : Reading) :
    s.read p = .ok r ↔
      s.read .lenient = .ok r ∧ ∀ k, p.flag k = false → r.report.counter k = 0 := by
  -- a counter is 0 exactly if no fault of its kind was met
  have hzero : s.read .lenient = .ok r →
      ((∀ k, p.flag k = false → r.report.counter k = 0) ↔ p.firstDenied? s.faults = none) := by
    intro hr
    obtain ⟨r', hread, hcount⟩ := s.read_lenient
    rw [hread] at hr
    obtain ⟨-, rfl⟩ := Ending.close_eq_ok_iff.mp hr
    rw [SkipPolicy.firstDenied?_eq_none_iff]
    simp only [hcount, List.countP_eq_zero, decide_eq_true_eq]
    constructor
    · intro h f hf
      exact Bool.of_not_eq_false fun hflag => h f.kind hflag f hf rfl
    · intro h k hk f hf hfk
      rw [← hfk, h f hf] at hk
      cases hk
  rw [read_eq]
  cases hd : p.firstDenied? s.faults with
  | some fault =>
      constructor
      · intro h
        cases h
      · intro h
        have := (hzero h.1).mp h.2
        rw [hd] at this
        cases this
  | none =>
      constructor
      · intro h
        exact ⟨h, (hzero h).mpr hd⟩
      · intro h
        exact h.1

end Survey

namespace Format

/-- The lenient policy comes to every element, so it finds out whether a document is torn. -/
theorem parse_lenient_eq_torn_iff {f : Format} {bs : List UInt8} :
    f.parse .lenient bs = .error .torn ↔ (f.survey bs).ending = .torn := by
  obtain ⟨r, hread, -⟩ := (f.survey bs).read_lenient
  rw [parse, hread]
  cases (f.survey bs).ending <;> simp [Ending.close]

/-- A reading is torn under no policy unless the document is. -/
theorem ending_of_torn {f : Format} {p : SkipPolicy} {bs : List UInt8}
    (h : f.parse p bs = .error .torn) : (f.survey bs).ending = .torn := by
  have hread := (f.survey bs).read_eq p
  cases hdenied : p.firstDenied? (f.survey bs).faults with
  | some fault =>
      rw [hdenied] at hread
      cases hread.symm.trans h
  | none =>
      rw [hdenied] at hread
      exact parse_lenient_eq_torn_iff.mp (hread.symm.trans h)

/-- A document is read under a policy with some result exactly if it is so under the lenient
policy and nothing was counted there that the policy does not allow to skip. The lenient reading
of a table always succeeds; without a byte order mark, only the markup can be at fault in the
other formats. -/
theorem parse_ok_iff_lenient (p : SkipPolicy) (bs : List UInt8) :
    (∀ (f : Format) (r : Reading), f.parse p bs = .ok r ↔
      f.parse .lenient bs = .ok r ∧ ∀ k, p.flag k = false → r.report.counter k = 0) ∧
    (∃ r, Format.kbart.parse .lenient bs = .ok r) ∧
    (¬ byteOrderMark <+: bs → ∀ f : Format, f ≠ .kbart → ∀ fault,
      f.parse .lenient bs = .error fault → fault = .markup) := by
  refine ⟨fun f r => (f.survey bs).read_eq_ok_iff p r, ?_, ?_⟩
  · obtain ⟨r, h, -⟩ := (Kbart.survey bs).read_lenient
    exact ⟨r, h⟩
  · intro hmark f _ fault h
    obtain ⟨r, hr, -⟩ := (f.survey bs).read_lenient
    rw [parse, hr] at h
    cases hending : (f.survey bs).ending with
    | complete =>
        rw [hending] at h
        cases h
    | broken =>
        rw [hending] at h
        exact (Except.error.inj h).symm
    | torn => exact absurd (byteOrderMark_of_torn hending) hmark

/-- A document that is nothing but an item without an end. -/
def openItem : List UInt8 := Text.Utf8.encode "<item>".toList

theorem openItem_markup :
    ¬ byteOrderMark <+: openItem ∧
      ∃ fault, Format.google.parse .lenient openItem = .error fault ∧ fault = .markup := by
  have h : ¬ byteOrderMark <+: openItem := by decide
  have hr : Format.google.parse .lenient openItem = .error .markup := by cbv
  exact ⟨h, _, hr, (parse_ok_iff_lenient .strict openItem).2.2 h .google (by decide) _ hr⟩

end Format

end Holdings
