import Holdings.Proofs.Detection
import Holdings.Proofs.Numbering
/-!
# Documents of narrow lines

A row of a table has one field more than its line has tabs, so a document in which no line has
twelve tabs has no row with as many columns as a table needs. Every row below the first is refused
as incomplete then, whatever the policy: either all of them are skipped, or the first one ends the
reading, as it would under the strict policy (`Survey.read_of_refused`). Nothing is filed in either
case. That keeps markup from being taken for a table, and leaves it to the readers of markup
(`Format.detect_narrow`). They give a reason for not fitting, unless their reading is torn.
-/

namespace Holdings

namespace Rows

/-- The lines of a document: what stands between its line breaks, and behind the last one. -/
def lines (bs : List UInt8) : List (List UInt8) := bs.splitOnP isEnding

/-- No line has as many tabs as a row of a table. -/
def Narrow (bs : List UInt8) : Prop := ∀ line ∈ lines bs, line.count 9 < 12

instance (bs : List UInt8) : Decidable (Narrow bs) :=
  inferInstanceAs (Decidable (∀ line ∈ lines bs, line.count 9 < 12))

theorem length_fields (bs : List UInt8) : (fields bs).length = bs.count 9 + 1 := by
  induction bs with
  | nil => rfl
  | cons b bs ih =>
      rw [fields]
      by_cases hb : b = 9
      · rw [if_pos hb, List.length_cons, ih, hb, List.count_cons_self]
      · rw [if_neg hb, List.count_cons_of_ne hb]
        cases hfields : fields bs with
        | nil =>
            rw [hfields] at ih
            cases ih
        | cons f fs =>
            rw [hfields] at ih
            exact ih

/-- What stands between two breaks, or between a break and the end, is a line. -/
theorem mem_lines {before body rest : List UInt8} {e : UInt8} (he : isEnding e = true)
    (hbody : ∀ b ∈ body, isEnding b = false)
    (hrest : ∀ b, rest.head? = some b → isEnding b = true) :
    body ∈ lines (before ++ e :: (body ++ rest)) := by
  have hlast : body ∈ lines (body ++ rest) := by
    cases rest with
    | nil =>
        rw [List.append_nil, lines, List.splitOnP_eq_singleton hbody]
        exact List.mem_singleton_self body
    | cons b rest =>
        rw [lines, List.splitOnP_append_cons _ _ (hrest b rfl), List.splitOnP_eq_singleton hbody]
        exact List.mem_cons_self
  rw [lines, List.splitOnP_append_cons _ _ he]
  exact List.mem_append_right _ hlast

/-- A row below the first one has the fields of a line. -/
theorem exists_line_of_row {bs : List UInt8} {row : Row} (h : row ∈ (rows bs).drop 1) :
    ∃ line ∈ lines bs, row.fields = fields line := by
  obtain ⟨heading, above, below, hrows⟩ :
      ∃ heading above below, rows bs = (heading :: above) ++ row :: below := by
    cases hrows : rows bs with
    | nil =>
        rw [hrows] at h
        cases h
    | cons heading others =>
        rw [hrows, List.drop_one, List.tail_cons] at h
        obtain ⟨above, below, rfl⟩ := List.append_of_mem h
        exact ⟨heading, above, below, rfl⟩
  obtain ⟨c, rfl, hfits, ⟨init, b, e, hfront, -, he⟩, rfl, -⟩ :=
    exists_cut_rows (List.cons_ne_nil _ _) hrows
  -- the break right in front of the row is the last one of the gap, if there is a gap
  have hbreaks : ∀ b ∈ e :: c.gap, isEnding b = true := List.forall_mem_cons.mpr ⟨he, hfits.gap⟩
  obtain ⟨breaks, last, hlast⟩ : ∃ breaks last, e :: c.gap = breaks ++ [last] :=
    ⟨_, _, (List.dropLast_concat_getLast (List.cons_ne_nil _ _)).symm⟩
  have hwrite : c.write = (init ++ b :: breaks) ++ last :: (c.body ++ c.rest) := by
    have hgap : e :: (c.gap ++ (c.body ++ c.rest)) = breaks ++ last :: (c.body ++ c.rest) := by
      rw [← List.cons_append, hlast, List.append_assoc, List.singleton_append]
    rw [Cut.write, hfront, List.append_assoc, List.append_assoc, List.cons_append, List.cons_append,
      List.nil_append, hgap]
    rfl
  refine ⟨c.body, ?_, rfl⟩
  rw [hwrite]
  exact mem_lines (hbreaks last (by simp [hlast])) hfits.body hfits.rest

theorem Narrow.length_lt {bs : List UInt8} (h : Narrow bs) :
    ∀ row ∈ (rows bs).drop 1, row.fields.length < Kbart.leastColumns := by
  intro row hrow
  obtain ⟨line, hline, hfields⟩ := exists_line_of_row hrow
  rw [hfields, length_fields]
  exact Nat.succ_lt_succ (h line hline)

end Rows

/-! ## Records that are all refused -/

namespace Survey

variable {s : Survey} {p : SkipPolicy}

/-- A record that is refused has one fault. -/
theorem length_faults_of_refused {os : List Outcome}
    (h : ∀ o ∈ os, ∃ fault, o = .refused fault) :
    (os.flatMap Outcome.faults).length = os.length := by
  induction os with
  | nil => rfl
  | cons o os ih =>
      obtain ⟨⟨fault, rfl⟩, hos⟩ := List.forall_mem_cons.mp h
      rw [List.flatMap_cons, List.length_append, ih hos, List.length_cons, Nat.add_comm]
      rfl

/-- A reading that may skip all faults skips all records. -/
theorem read_of_skipped (hcomplete : s.ending = .complete)
    (h : ∀ o ∈ s.outcomes, ∃ fault, o = .refused fault) (hnone : p.firstDenied? s.faults = none) :
    ∃ report, s.read p = .ok ⟨.empty, report⟩ ∧ report.skipped = report.records := by
  obtain ⟨r, hlenient, -⟩ := s.read_lenient
  have hread : s.read p = .ok r := by
    rw [s.read_eq p, hnone, hlenient, hcomplete]
    rfl
  obtain ⟨hshares, hcounters⟩ := read_eq_ok hread
  have hregistry : r.registry = .empty := by rw [hshares, registry_shares_of_refused h]
  have hskipped : r.report.skipped = r.report.records := by
    rw [Report.skipped_eq_length hcounters, faults, length_faults_of_refused h, hshares,
      records_shares]
  exact ⟨r.report, by rw [hread, ← hregistry], hskipped⟩

/-- Where every record is refused, and all for faults of one kind, nothing is filed. Either all
records are skipped, or the reading ends with a fault, and then with the same one under the strict
policy. -/
theorem read_of_refused {k : FaultKind} (hcomplete : s.ending = .complete)
    (h : ∀ o ∈ s.outcomes, ∃ fault, o = .refused fault ∧ fault.kind = k) (p : SkipPolicy) :
    (∃ report, s.read p = .ok ⟨.empty, report⟩ ∧ report.skipped = report.records) ∨
      ∃ fault, s.read p = .error fault ∧ s.read .strict = .error fault := by
  have hrefused : ∀ o ∈ s.outcomes, ∃ fault, o = .refused fault := by
    intro o ho
    obtain ⟨fault, hfault, -⟩ := h o ho
    exact ⟨fault, hfault⟩
  have hkinds : ∀ fault ∈ s.faults, fault.kind = k := by
    intro fault hfault
    obtain ⟨o, ho, hmem⟩ := List.mem_flatMap.mp hfault
    obtain ⟨fault', rfl, hkind⟩ := h o ho
    rw [List.mem_singleton.mp hmem, hkind]
  cases hdenied : p.firstDenied? s.faults with
  | none => exact .inl (read_of_skipped hcomplete hrefused hdenied)
  | some fault =>
      -- the policy allows no fault of this kind, so the first one of all is denied
      have hflag : p.flag k = false := by
        have hnot := List.find?_some hdenied
        rw [SkipPolicy.allows_eq, hkinds fault (List.mem_of_find?_eq_some hdenied)] at hnot
        simpa using hnot
      have hfirst : ∀ q : SkipPolicy, q.flag k = false →
          q.firstDenied? s.faults = s.faults.head? := by
        intro q hq
        cases hfaults : s.faults with
        | nil => rfl
        | cons f fs =>
            have hf : (!q.allows f) = true := by
              rw [SkipPolicy.allows_eq, hkinds f (hfaults ▸ List.mem_cons_self), hq]
              rfl
            exact List.find?_cons_of_pos hf
      have hstrict : SkipPolicy.strict.firstDenied? s.faults = some fault := by
        rw [hfirst .strict (by cases k <;> rfl), ← hfirst p hflag, hdenied]
      exact .inr ⟨.record fault, by rw [s.read_eq p, hdenied], by rw [s.read_eq .strict, hstrict]⟩

end Survey

namespace Format

/-- A document of narrow lines is rejected as a table: all its rows are skipped, or there is the
fault that the strict policy finds. -/
theorem attempt_kbart_of_narrow (p : SkipPolicy) {bs : List UInt8} (h : Rows.Narrow bs) :
    ∃ reason, Format.kbart.attempt p bs = .error reason ∧ reason ≠ .fault .torn ∧
      ((∃ report, reason = .nothing report ∧ Format.kbart.parse p bs = .ok ⟨.empty, report⟩ ∧
          report.skipped = report.records) ∨
        ∃ fault, reason = .fault fault ∧ Format.kbart.parse p bs = .error fault ∧
          Format.kbart.parse .strict bs = .error fault) := by
  have hrefused : ∀ o ∈ (Format.kbart.survey bs).outcomes,
      ∃ fault, o = .refused fault ∧ fault.kind = .incompleteLine := by
    intro o ho
    obtain ⟨row, hrow, rfl⟩ := List.mem_map.mp ho
    exact ⟨_, if_pos (h.length_lt row (List.mem_of_mem_filter hrow)), rfl⟩
  rcases Survey.read_of_refused rfl hrefused p with
    ⟨report, hread, hall⟩ | ⟨fault, hread, hstrict⟩
  · refine ⟨.nothing report, ?_, nofun, .inl ⟨report, rfl, hread, hall⟩⟩
    rw [attempt, parse, hread]
    rfl
  · refine ⟨.fault fault, ?_, ?_, .inr ⟨fault, rfl, hread, hstrict⟩⟩
    · rw [attempt, parse, hread]
    · rintro ⟨rfl⟩
      exact not_torn_kbart hread

/-- What is detected in a document of narrow lines, whatever the policy. It is never a table: it is
EZB markup if this brings a licence, otherwise Google markup if this does, and otherwise it is
refused, with the reasons of all three formats in their order. No table it is either because its
rows were all skipped, or for the fault that the strict policy finds. The reading of EZB markup or
then of Google markup may be torn, and so is the detection then; for this it takes a byte order mark
in front. -/
theorem detect_narrow {p : SkipPolicy} {bs : List UInt8} (hne : bs ≠ []) (h : Rows.Narrow bs) :
    ∃ reason : Rejection,
      ((∃ report, reason = .nothing report ∧ Format.kbart.parse p bs = .ok ⟨.empty, report⟩ ∧
          report.skipped = report.records) ∨
        ∃ fault, reason = .fault fault ∧ Format.kbart.parse p bs = .error fault ∧
          Format.kbart.parse .strict bs = .error fault) ∧
      (detect p bs =
        match Format.ezb.attempt p bs, Format.google.attempt p bs with
        | .ok r, _ => .ok ⟨some .ezb, r⟩
        | .error (.fault .torn), _ => .error .torn
        | .error _, .ok r => .ok ⟨some .google, r⟩
        | .error _, .error (.fault .torn) => .error .torn
        | .error first, .error second =>
          .error (.rejected [(.kbart, reason), (.ezb, first), (.google, second)])) ∧
      (detect p bs = .error .torn → byteOrderMark <+: bs) := by
  have hmark : detect p bs = .error .torn → byteOrderMark <+: bs :=
    fun htorn => by_contra fun hnot => detect_ne_torn hnot htorn
  obtain ⟨reason, hattempt, hwhole, hreason⟩ := attempt_kbart_of_narrow p h
  refine ⟨reason, hreason, ?_, hmark⟩
  have hbytes : bs.isEmpty = false := by simpa using hne
  rw [detect, hbytes, if_neg Bool.false_ne_true, all, tryAll_rejects hattempt hwhole, tryAll,
    tryAll, tryAll]
  rcases Format.ezb.attempt p bs with (report | (fault | - | -)) | r
  all_goals rcases Format.google.attempt p bs with (report' | (fault' | - | -)) | r'
  all_goals rfl

/-- A mark in front of a short text and a holding. -/
def markedHolding : List UInt8 := byteOrderMark ++ Text.Utf8.encode "ab<holding/>".toList

/-- The cut of the holding falls inside of the mark, so no reason is given. -/
theorem detect_narrow_fails_torn :
    markedHolding ≠ [] ∧ Rows.Narrow markedHolding ∧
      detect .lenient markedHolding = .error .torn ∧
      ¬ ∃ first second third, detect .lenient markedHolding =
        .error (.rejected [(.kbart, first), (.ezb, second), (.google, third)]) := by
  have htorn : detect .lenient markedHolding = .error .torn := by cbv
  refine ⟨by decide, by decide, htorn, ?_⟩
  rintro ⟨first, second, third, h⟩
  cases htorn.symm.trans h

/-- An item below a line of eleven tabs. -/
def elevenTabs : List UInt8 :=
  Text.Utf8.encode ("<r>\n\t\t\t\t\t\t\t\t\t\t\tx\r" ++
    "<item><issn>12345678</issn><coverage/></item></r>").toList

theorem narrow_elevenTabs : Rows.Narrow elevenTabs := by
  have htabs : (Rows.lines elevenTabs).map (fun line => line.count 9) = [0, 11, 0] := by cbv
  intro line hline
  have hcount := List.mem_map_of_mem (f := fun line => line.count 9) hline
  rw [htabs] at hcount
  exact (by decide : ∀ n ∈ [0, 11, 0], n < 12) _ hcount

/-- The row of twelve fields may not be skipped, there is no holding, and the item is found. -/
theorem detect_narrow_elevenTabs : elevenTabs ≠ [] ∧ Rows.Narrow elevenTabs ∧
    ∃ r, Format.google.parse .strict elevenTabs = .ok r ∧
      detect .strict elevenTabs = .ok ⟨some .google, r⟩ := by
  have hempty : elevenTabs.isEmpty = false := by cbv
  have hne : elevenTabs ≠ [] := by simpa using hempty
  have hnone : (Format.ezb.attempt .strict elevenTabs).map (fun _ => ()) =
      .error (.nothing .empty) := by cbv
  have hfits : (Format.google.attempt .strict elevenTabs).map (fun _ => ()) = .ok () := by cbv
  obtain ⟨reason, -, hdetect, -⟩ := detect_narrow (p := .strict) hne narrow_elevenTabs
  cases hezb : Format.ezb.attempt .strict elevenTabs with
  | ok r =>
      rw [hezb] at hnone
      cases hnone
  | error first =>
      cases hgoogle : Format.google.attempt .strict elevenTabs with
      | error second =>
          rw [hgoogle] at hfits
          cases hfits
      | ok r =>
          rw [hezb] at hnone
          obtain rfl : first = .nothing .empty := Except.error.inj hnone
          rw [hezb, hgoogle] at hdetect
          exact ⟨hne, narrow_elevenTabs, r, (attempt_eq_ok_iff.mp hgoogle).1, hdetect⟩

end Format

end Holdings
