import Holdings.Format.Detect
import Holdings.Proofs.Shares
/-!
# Formats under another policy

The format of a document is the first one in which its reading brings a licence, so it depends on
the policy: a reading that one policy stops at a faulty record goes on under another. A policy that
allows more takes nothing away. The format that was found still fits, with the same reading, and the
only thing that can happen is that one of the formats that were tried before it fits now as well,
since the fault that had stopped it there may be skipped (`Format.detect_relaxed`). A table must have
a row of enough columns for that, and an EZB document an element of its kind.
-/

namespace Holdings

/-- Whatever may be skipped under one policy may be skipped under the other. -/
def SkipPolicy.Within (p q : SkipPolicy) : Prop := ∀ k, p.flag k = true → q.flag k = true

instance (p q : SkipPolicy) : Decidable (p.Within q) :=
  decidable_of_iff
    (∀ k ∈ [FaultKind.missingIdentifiers, .incompleteLine, .invalidEmbargo, .malformed],
      p.flag k = true → q.flag k = true)
    ⟨fun h k => h k (by cases k <;> decide), fun h k _ => h k⟩

namespace Format

/-! ## One format -/

/-- The reading of a document in a format brings a licence under a policy. -/
def Fits (f : Format) (p : SkipPolicy) (bs : List UInt8) : Prop := ∃ r, f.attempt p bs = .ok r

variable {p q : SkipPolicy} {bs : List UInt8} {f : Format} {r : Reading}

theorem attempt_eq_ok_iff :
    f.attempt p bs = .ok r ↔ f.parse p bs = .ok r ∧ r.registry.isEmpty = false := by
  unfold attempt
  cases f.parse p bs with
  | error fault => exact ⟨nofun, nofun⟩
  | ok r' =>
      dsimp only
      split
      · next hempty =>
        refine ⟨nofun, fun h => ?_⟩
        rw [← Except.ok.inj h.1, hempty] at h
        cases h.2
      · next hempty =>
        refine ⟨fun h => ?_, fun h => congrArg _ (Except.ok.inj h.1)⟩
        rw [← Except.ok.inj h]
        exact ⟨rfl, Bool.of_not_eq_true hempty⟩

/-- A policy that allows more leaves a reading that succeeded as it is. -/
theorem attempt_relaxed (hpq : p.Within q) (h : f.attempt p bs = .ok r) :
    f.attempt q bs = .ok r := by
  obtain ⟨hparse, hsome⟩ := attempt_eq_ok_iff.mp h
  obtain ⟨hlenient, hcounters⟩ := ((f.survey bs).read_eq_ok_iff p r).mp hparse
  refine attempt_eq_ok_iff.mpr ⟨((f.survey bs).read_eq_ok_iff q r).mpr ⟨hlenient, ?_⟩, hsome⟩
  intro k hk
  refine hcounters k (Bool.eq_false_iff.mpr fun hp => ?_)
  rw [hpq k hp] at hk
  cases hk

/-- A format that does not fit under a policy, but does under another, was stopped by a record. -/
theorem exists_denied_of_attempt (hp : ¬ f.Fits p bs) (hq : f.attempt q bs = .ok r) :
    ∃ fault, f.parse p bs = .error (.record fault) ∧ p.allows fault = false ∧
      q.allows fault = true := by
  obtain ⟨hparse, hsome⟩ := attempt_eq_ok_iff.mp hq
  obtain ⟨hlenient, -⟩ := ((f.survey bs).read_eq_ok_iff q r).mp hparse
  have hread := (f.survey bs).read_eq p
  cases hdenied : p.firstDenied? (f.survey bs).faults with
  | none =>
      rw [hdenied] at hread
      exact absurd ⟨r, attempt_eq_ok_iff.mpr ⟨hread.trans hlenient, hsome⟩⟩ hp
  | some fault =>
      rw [hdenied] at hread
      have hpermitted : q.firstDenied? (f.survey bs).faults = none := by
        have hreadq := (f.survey bs).read_eq q
        cases hd : q.firstDenied? (f.survey bs).faults with
        | none => rfl
        | some fault' =>
            rw [hd] at hreadq
            cases hreadq.symm.trans hparse
      refine ⟨fault, hread, ?_, ?_⟩
      · simpa using List.find?_some hdenied
      · rw [SkipPolicy.allows_eq]
        exact SkipPolicy.firstDenied?_eq_none_iff.mp hpermitted fault
          (List.mem_of_find?_eq_some hdenied)

/-! ## The first format that fits -/

/-- A format rejects a document: its reading brings no licence, and is not torn either. -/
def Rejects (f : Format) (p : SkipPolicy) (bs : List UInt8) : Prop :=
  ∃ reason, f.attempt p bs = .error reason ∧ reason ≠ .fault .torn

theorem Rejects.not_fits (h : f.Rejects p bs) : ¬ f.Fits p bs := by
  obtain ⟨reason, hreason, -⟩ := h
  rintro ⟨r, hr⟩
  rw [hr] at hreason
  cases hreason

theorem attempt_eq_torn_iff :
    f.attempt p bs = .error (.fault .torn) ↔ f.parse p bs = .error .torn := by
  rw [attempt]
  cases f.parse p bs with
  | error fault => simp
  | ok r =>
      dsimp only
      split <;> simp

theorem tryAll_rejects {fs : List Format} {reason : Rejection}
    (h : f.attempt p bs = .error reason) (hreason : reason ≠ .fault .torn) :
    tryAll p bs (f :: fs) = (tryAll p bs fs).mapError (.after f reason) := by
  rw [tryAll, h]
  split
  · next heq => cases heq
  · next heq => exact absurd (Except.error.inj heq) hreason
  · next heq => rw [Except.error.inj heq]

/-- The formats that are tried reject the document up to the first one that fits or in which the
reading is torn. -/
theorem tryAll_cases (p : SkipPolicy) (bs : List UInt8) (fs : List Format) :
    (∃ before f after, fs = before ++ f :: after ∧ (∀ g ∈ before, g.Rejects p bs) ∧
      ((∃ r, f.attempt p bs = .ok r ∧ tryAll p bs fs = .ok ⟨some f, r⟩) ∨
        f.parse p bs = .error .torn ∧ tryAll p bs fs = .error .torn)) ∨
    (∀ f ∈ fs, f.Rejects p bs) ∧ ∃ rs, tryAll p bs fs = .error (.rejected rs) := by
  induction fs with
  | nil => exact .inr ⟨nofun, [], rfl⟩
  | cons f fs ih =>
      cases hf : f.attempt p bs with
      | ok r => exact .inl ⟨[], f, fs, rfl, nofun, .inl ⟨r, hf, by rw [tryAll, hf]⟩⟩
      | error reason =>
          by_cases htorn : reason = .fault .torn
          · subst htorn
            exact .inl ⟨[], f, fs, rfl, nofun,
              .inr ⟨attempt_eq_torn_iff.mp hf, by rw [tryAll, hf]⟩⟩
          have hrejects : f.Rejects p bs := ⟨reason, hf, htorn⟩
          rw [tryAll_rejects hf htorn]
          rcases ih with ⟨before, g, after, rfl, hbefore, hstop⟩ | ⟨hall, rs, hrs⟩
          · have hfront : ∀ g ∈ f :: before, g.Rejects p bs :=
              List.forall_mem_cons.mpr ⟨hrejects, hbefore⟩
            refine .inl ⟨f :: before, g, after, rfl, hfront, hstop.imp ?_ ?_⟩
            · rintro ⟨r, hr, htry⟩
              exact ⟨r, hr, by rw [htry]; rfl⟩
            · rintro ⟨hg, htry⟩
              exact ⟨hg, by rw [htry]; rfl⟩
          · exact .inr ⟨List.forall_mem_cons.mpr ⟨hrejects, hall⟩, _, by rw [hrs]; rfl⟩

/-- Two splits of a list, if what stands in the middle of one is not in front in the other. -/
theorem eq_or_exists_of_split {α : Type} {f g : α} {before after before' after' : List α}
    (h : before ++ f :: after = before' ++ g :: after') (hf : f ∉ before') :
    f = g ∨ ∃ mid, before = before' ++ g :: mid := by
  rcases List.append_eq_append_iff.mp h with ⟨cs, rfl, hrest⟩ | ⟨cs, rfl, hrest⟩
  · cases cs with
    | nil => exact .inl (List.cons.inj hrest).1
    | cons c cs =>
        obtain ⟨rfl, -⟩ := List.cons.inj hrest
        exact absurd (List.mem_append_right _ List.mem_cons_self) hf
  · cases cs with
    | nil => exact .inl (List.cons.inj hrest).1.symm
    | cons c cs =>
        obtain ⟨rfl, -⟩ := List.cons.inj hrest
        exact .inr ⟨cs, rfl⟩

/-- Under a policy that allows more, the first format that fits is the same, or an earlier one,
unless the reading in an earlier one is torn. -/
theorem tryAll_relaxed (hpq : p.Within q) (before after : List Format)
    (hf : f.attempt p bs = .ok r) :
    tryAll q bs (before ++ f :: after) = .ok ⟨some f, r⟩ ∨
      ∃ before' g after', before = before' ++ g :: after' ∧ (∀ g' ∈ before', ¬ g'.Fits q bs) ∧
        ((∃ r', g.attempt q bs = .ok r' ∧
            tryAll q bs (before ++ f :: after) = .ok ⟨some g, r'⟩) ∨
          g.parse q bs = .error .torn ∧ tryAll q bs (before ++ f :: after) = .error .torn) := by
  have hfits : f.attempt q bs = .ok r := attempt_relaxed hpq hf
  rcases tryAll_cases q bs (before ++ f :: after) with
    ⟨before', g, after', hsplit, hbefore', hstop⟩ | ⟨hall, -⟩
  · have hnot : f ∉ before' := fun hmem => (hbefore' f hmem).not_fits ⟨r, hfits⟩
    rcases eq_or_exists_of_split hsplit hnot with rfl | ⟨mid, hmid⟩
    · rcases hstop with ⟨r', hr', htry⟩ | ⟨htorn, -⟩
      · rw [Except.ok.inj (hfits.symm.trans hr')]
        exact .inl htry
      · cases (attempt_eq_ok_iff.mp hfits).1.symm.trans htorn
    · exact .inr ⟨before', g, mid, hmid, fun g' hg' => (hbefore' g' hg').not_fits, hstop⟩
  · exact absurd ⟨r, hfits⟩ (hall f (List.mem_append_right _ List.mem_cons_self)).not_fits

/-- What is detected was found after formats that do not fit. -/
theorem exists_split_of_tryAll {fs : List Format} {x : Detected} (h : tryAll p bs fs = .ok x) :
    ∃ before f after r, fs = before ++ f :: after ∧ (∀ g ∈ before, ¬ g.Fits p bs) ∧
      f.attempt p bs = .ok r ∧ x = ⟨some f, r⟩ := by
  rcases tryAll_cases p bs fs with
    ⟨before, f, after, hfs, hbefore, ⟨r, hr, htry⟩ | ⟨-, htry⟩⟩ | ⟨-, rs, htry⟩
  · exact ⟨before, f, after, r, hfs, fun g hg => (hbefore g hg).not_fits, hr,
      (Except.ok.inj (htry.symm.trans h)).symm⟩
  · cases htry.symm.trans h
  · cases htry.symm.trans h

end Format

/-! ## Formats that cannot fit -/

/-- Records that are refused bring no licence. -/
theorem registry_shares_of_refused {os : List Outcome}
    (h : ∀ o ∈ os, ∃ fault, o = .refused fault) : (shares os).registry = .empty := by
  induction os with
  | nil => rfl
  | cons o os ih =>
      obtain ⟨⟨fault, rfl⟩, hos⟩ := List.forall_mem_cons.mp h
      rw [shares, List.map_cons, Reading.total_cons]
      show Registry.merge _ (shares os).registry = _
      rw [ih hos]
      rfl

namespace Format

variable {p q : SkipPolicy} {bs : List UInt8} {f : Format}

/-- A document in which all records are refused fits under no policy. -/
theorem not_fits_of_refused (h : ∀ o ∈ (f.survey bs).outcomes, ∃ fault, o = .refused fault) :
    ¬ f.Fits p bs := by
  rintro ⟨r, hr⟩
  obtain ⟨hparse, hsome⟩ := attempt_eq_ok_iff.mp hr
  obtain ⟨hlenient, -⟩ := ((f.survey bs).read_eq_ok_iff p r).mp hparse
  rw [Survey.read_lenient_eq] at hlenient
  obtain ⟨-, rfl⟩ := Ending.close_eq_ok_iff.mp hlenient
  rw [registry_shares_of_refused h] at hsome
  cases hsome

/-- A table without a row of enough columns below its heading. -/
theorem not_fits_kbart
    (h : ∀ row ∈ (Rows.rows bs).drop 1, row.fields.length < Kbart.leastColumns) :
    ¬ Format.kbart.Fits p bs := by
  apply not_fits_of_refused
  intro o ho
  obtain ⟨row, hrow, rfl⟩ := List.mem_map.mp ho
  exact ⟨_, if_pos (h row (List.mem_of_mem_filter hrow))⟩

/-- A document without holdings. -/
theorem not_fits_ezb (h : ((Xml.Document.ofBytes bs).elements "holding".toList).1 = []) :
    ¬ Format.ezb.Fits p bs := by
  apply not_fits_of_refused
  intro o ho
  rw [survey, Ezb.survey, Markup.survey_of_elements_nil h] at ho
  cases ho

theorem not_torn_kbart : Format.kbart.parse p bs ≠ .error .torn :=
  fun htorn => nomatch ending_of_torn htorn

theorem not_torn_ezb (h : ((Xml.Document.ofBytes bs).elements "holding".toList).1 = []) :
    Format.ezb.parse p bs ≠ .error .torn := by
  intro htorn
  obtain ⟨e, he, -⟩ := Markup.ending_survey_eq_torn_iff.mp (ending_of_torn htorn)
  rw [h] at he
  cases he

/-- A document without a byte order mark is detected or rejected. -/
theorem detect_ne_torn (h : ¬ byteOrderMark <+: bs) : detect p bs ≠ .error .torn := by
  intro htorn
  rw [detect] at htorn
  split at htorn
  · cases htorn
  · rcases tryAll_cases p bs all with
      ⟨_, f, _, -, -, ⟨r, -, htry⟩ | ⟨hf, -⟩⟩ | ⟨-, rs, htry⟩
    · cases htry.symm.trans htorn
    · exact h (byteOrderMark_of_torn (ending_of_torn hf))
    · cases htry.symm.trans htorn

end Format

/-! ## Detection -/

/-- The formats that were tried in vain before the one that was found. -/
def Detected.passedOver (x : Detected) : List Format :=
  match x.format with
  | some f => Format.all.takeWhile (· ≠ f)
  | none => []

namespace Format

variable {p q : SkipPolicy} {bs : List UInt8} {f g : Format}

theorem passedOver_of_split {before after : List Format} (h : all = before ++ f :: after)
    (r : Reading) : Detected.passedOver ⟨some f, r⟩ = before := by
  have hnodup : (before ++ f :: after).Nodup := h ▸ (by decide : all.Nodup)
  have hnot : ∀ g ∈ before, decide (g ≠ f) = true := by
    intro g hg
    exact decide_eq_true fun he =>
      (List.nodup_append.mp hnodup).2.2 g hg f List.mem_cons_self he
  show all.takeWhile (· ≠ f) = before
  rw [h, List.takeWhile_append_of_pos hnot, List.takeWhile_cons_of_neg (by simp), List.append_nil]

theorem eq_of_mem_passedOver {r : Reading} (h : g ∈ Detected.passedOver ⟨some f, r⟩) :
    g = .kbart ∨ g = .ezb ∧ f = .google := by
  have hmem : g ∈ all.takeWhile (· ≠ f) := h
  revert hmem
  cases f <;> cases g <;> decide

/-- What is detected under a policy that allows more. A document that was accepted is accepted
again, if its detection is not torn now. It has the same format and the same reading, unless a
format that is tried earlier fits now too: this one had been stopped by a record that only the new
policy allows to skip, and the first such format is taken instead. That cannot be a table unless
some row below the heading has enough columns, nor an EZB document without holdings. Torn is only a
document with a byte order mark in front that was Google markup, where the new policy comes to a
holding that cannot be cut out. -/
theorem detect_relaxed {x : Detected} (hpq : p.Within q) (h : detect p bs = .ok x) :
    (detect q bs ≠ .error .torn →
      detect q bs = .ok x ∨
      ∃ before f after r fault, x.passedOver = before ++ f :: after ∧
        (∀ g ∈ before, ¬ g.Fits q bs) ∧ f.attempt q bs = .ok r ∧ detect q bs = .ok ⟨some f, r⟩ ∧
        f.parse p bs = .error (.record fault) ∧ p.allows fault = false ∧
        q.allows fault = true) ∧
    (detect q bs = .error .torn →
      byteOrderMark <+: bs ∧ x.format = some .google ∧ Format.ezb.parse q bs = .error .torn) ∧
    ((∀ row ∈ (Rows.rows bs).drop 1, row.fields.length < Kbart.leastColumns) →
      (x.format = some .google →
        ((Xml.Document.ofBytes bs).elements "holding".toList).1 = []) →
      detect q bs = .ok x) := by
  unfold detect at h ⊢
  split at h
  · next hempty =>
    rw [if_pos hempty, h]
    exact ⟨fun _ => .inl rfl, nofun, fun _ _ => rfl⟩
  · next hempty =>
    rw [if_neg hempty]
    obtain ⟨before, f, after, r, hall, hbefore, hf, rfl⟩ := exists_split_of_tryAll h
    have hpassed := passedOver_of_split hall r
    rw [hpassed, hall]
    rcases tryAll_relaxed hpq before after hf with
      hsame | ⟨earlier, g, later, rfl, hearlier, hnow⟩
    · rw [hsame]
      exact ⟨fun _ => .inl rfl, nofun, fun _ _ => rfl⟩
    have hmem : g ∈ earlier ++ g :: later := List.mem_append_right _ List.mem_cons_self
    refine ⟨fun hwhole => ?_, fun htorn => ?_, fun hrows hholdings => ?_⟩
    · obtain ⟨r', hg, hnow⟩ := hnow.resolve_right fun htorn => hwhole htorn.2
      obtain ⟨fault, hstopped, hdenied, hallowed⟩ := exists_denied_of_attempt (hbefore g hmem) hg
      exact .inr ⟨earlier, g, later, r', fault, rfl, hearlier, hg, hnow, hstopped, hdenied,
        hallowed⟩
    · obtain ⟨hg, -⟩ := hnow.resolve_left fun ⟨r', _, hnow⟩ => by cases hnow.symm.trans htorn
      rcases eq_of_mem_passedOver (hpassed ▸ hmem) with rfl | ⟨rfl, rfl⟩
      · exact absurd hg not_torn_kbart
      · exact ⟨byteOrderMark_of_torn (ending_of_torn hg), rfl, hg⟩
    · -- Neither of the formats that were passed over fits or is torn.
      have hstop : g.Fits q bs ∨ g.parse q bs = .error .torn :=
        hnow.imp (fun ⟨r', hg, _⟩ => ⟨r', hg⟩) And.left
      rcases eq_of_mem_passedOver (hpassed ▸ hmem) with rfl | ⟨rfl, rfl⟩
      · exact (hstop.elim (not_fits_kbart hrows) not_torn_kbart).elim
      · exact (hstop.elim (not_fits_ezb (hholdings rfl)) (not_torn_ezb (hholdings rfl))).elim

/-- A document with one holding. -/
def plainHolding : List UInt8 :=
  Text.Utf8.encode ("<holding><EZBIssns><p-issn>1234-5678</p-issn></EZBIssns>" ++
    "<entitlements><entitlement/></entitlements></holding>\n").toList

/-- The same in a root element, with a line below that has the columns of a table. -/
def holdingAboveRow : List UInt8 :=
  Text.Utf8.encode ("<r>\n<holding><EZBIssns><p-issn>1234-5678</p-issn></EZBIssns>" ++
    "<entitlements><entitlement/></entitlements></holding>\n" ++
    "\tx\t\t\t\t\t\t\t\t\t\t\t\n</r>").toList

theorem narrow_plainHolding :
    ∀ row ∈ (Rows.rows plainHolding).drop 1, row.fields.length < Kbart.leastColumns := by
  have h : ((Rows.rows plainHolding).drop 1).all
      (fun row => row.fields.length < Kbart.leastColumns) = true := by cbv
  simpa using h

theorem detect_relaxed_holding :
    SkipPolicy.strict.Within .lenient ∧ ∃ x, x.format = some .ezb ∧
      detect .strict plainHolding = .ok x ∧ detect .lenient plainHolding = .ok x := by
  have hwithin : SkipPolicy.strict.Within .lenient := by decide
  have hformat : (detect .strict plainHolding).map Detected.format = .ok (some .ezb) := by cbv
  cases hx : detect .strict plainHolding with
  | error rs =>
      rw [hx] at hformat
      cases hformat
  | ok x =>
      rw [hx] at hformat
      have hezb : x.format = some .ezb := Except.ok.inj hformat
      refine ⟨hwithin, x, hezb, rfl, ?_⟩
      refine (detect_relaxed hwithin hx).2.2 narrow_plainHolding fun hgoogle => ?_
      rw [hezb] at hgoogle
      cases hgoogle

/-- The row brings its licence only when what is above may be skipped, and the table is tried
first. -/
theorem detect_relaxed_fails_row :
    SkipPolicy.strict.Within .lenient ∧
      (detect .strict holdingAboveRow).map Detected.format = .ok (some .ezb) ∧
      (detect .lenient holdingAboveRow).map Detected.format = .ok (some .kbart) :=
  ⟨by decide, by cbv, by cbv⟩

end Format

end Holdings
