import Holdings.Proofs.Columns
import Holdings.Proofs.Shares
/-!
# Tables cut at the end of a line

A table is read row by row, and a row is what stands between two line breaks. So if a table is cut
right after a break, then the rows of both parts are the rows of the whole
(`Rows.fields_rowsFrom_append`). They have other line numbers there, but these are only told of
rows at fault and bring nothing by themselves. Hence the parts, each under the heading of the
table, bring together what the table brings (`Format.parse_lines`).
-/

namespace Holdings

namespace Rows

/-- Bytes are line breaks, or there is a first row in them. -/
theorem exists_firstRow (bs : List UInt8) :
    (∀ b ∈ bs, isEnding b = true) ∨
    ∃ ends body rest, bs = ends ++ (body ++ rest) ∧ (∀ b ∈ ends, isEnding b = true) ∧
      body ≠ [] ∧ (∀ b ∈ body, isEnding b = false) ∧
      ∀ b, rest.head? = some b → isEnding b = true := by
  cases hbody : bs.dropWhile isEnding with
  | nil => exact .inl (List.dropWhile_eq_nil_iff.mp hbody)
  | cons c body =>
      have hc : isEnding c = false := by
        have h := List.head?_dropWhile_not isEnding bs
        rwa [hbody] at h
      refine .inr ⟨bs.takeWhile isEnding, (c :: body).takeWhile fun b => !isEnding b,
        (c :: body).dropWhile fun b => !isEnding b, ?_, ?_, ?_, ?_, ?_⟩
      · rw [List.takeWhile_append_dropWhile, ← hbody, List.takeWhile_append_dropWhile]
      · exact List.all_eq_true.mp List.all_takeWhile
      · simp [hc]
      · intro b hb
        have h := List.all_eq_true.mp List.all_takeWhile b hb
        simpa using h
      · intro b hb
        have h := List.head?_dropWhile_not (fun b => !isEnding b) (c :: body)
        rw [hb] at h
        simpa using h

theorem forall_ending_nil : ∀ b ∈ ([] : List UInt8), isEnding b = true := nofun

/-- Breaks in front of rows and the number of the first line do not show in the fields. -/
theorem fields_rowsFrom_endings {ends : List UInt8} (hends : ∀ b ∈ ends, isEnding b = true)
    (line line' : Nat) (bs : List UInt8) :
    (rowsFrom line (ends ++ bs)).map Row.fields = (rowsFrom line' bs).map Row.fields := by
  induction hlength : bs.length using Nat.strongRecOn generalizing ends line line' bs with
  | ind n ih =>
    rcases exists_firstRow bs with hbs | ⟨ends', body, rest, rfl, hends', hne, hbody, hrest⟩
    · rw [rowsFrom_endings line', rowsFrom_endings line]
      · intro b hb
        exact (List.mem_append.mp hb).elim (hends b) (hbs b)
      · exact hbs
    · have hboth : ∀ b ∈ ends ++ ends', isEnding b = true :=
        fun b hb => (List.mem_append.mp hb).elim (hends b) (hends' b)
      obtain ⟨next, hnext⟩ := exists_rowsFrom line hboth hne hbody hrest
      obtain ⟨next', hnext'⟩ := exists_rowsFrom line' hends' hne hbody hrest
      rw [← List.append_assoc, hnext, hnext', List.map_cons, List.map_cons]
      have hpos := List.length_pos_iff.mpr hne
      have hlt : (rest.drop 1).length < n := by
        simp only [List.length_append] at hlength
        simp only [List.length_drop]
        omega
      have hrows := ih _ hlt forall_ending_nil next next' _ rfl
      rw [List.nil_append] at hrows
      rw [hrows]

theorem fields_rowsFrom (line line' : Nat) (bs : List UInt8) :
    (rowsFrom line bs).map Row.fields = (rowsFrom line' bs).map Row.fields :=
  fields_rowsFrom_endings forall_ending_nil line line' bs

/-- After a break, rows start anew. -/
theorem fields_rowsFrom_append {bs : List UInt8}
    (h : ∀ b, bs.getLast? = some b → isEnding b = true) (line : Nat) (more : List UInt8) :
    (rowsFrom line (bs ++ more)).map Row.fields =
      (rowsFrom line bs).map Row.fields ++ (rowsFrom line more).map Row.fields := by
  induction hlength : bs.length using Nat.strongRecOn generalizing line bs with
  | ind n ih =>
    rcases exists_firstRow bs with hbs | ⟨ends, body, rest, rfl, hends, hne, hbody, hrest⟩
    · rw [fields_rowsFrom_endings hbs line line, rowsFrom_endings line hbs, List.map_nil,
        List.nil_append]
    · -- The row is not the last thing in the first part: a break comes after it.
      cases rest with
      | nil =>
          rw [List.append_nil, List.getLast?_append_of_ne_nil _ hne,
            List.getLast?_eq_some_getLast hne] at h
          have hlast := h _ rfl
          rw [hbody _ (List.getLast_mem hne)] at hlast
          cases hlast
      | cons c rest =>
          have hbreak : ∀ b, (c :: (rest ++ more)).head? = some b → isEnding b = true :=
            fun b hb => hrest b hb
          obtain ⟨next, hnext⟩ := exists_rowsFrom line hends hne hbody hbreak
          obtain ⟨next', hnext'⟩ := exists_rowsFrom line hends hne hbody hrest
          have hlt : rest.length < n := by
            simp only [List.length_append, List.length_cons] at hlength
            omega
          have hlast : ∀ b, rest.getLast? = some b → isEnding b = true := by
            intro b hb
            refine h b ?_
            rw [List.getLast?_append, List.getLast?_append, List.getLast?_cons, hb]
            rfl
          have hshape : ends ++ (body ++ c :: rest) ++ more =
              ends ++ (body ++ c :: (rest ++ more)) := by simp
          rw [hshape, hnext, hnext', List.map_cons, List.map_cons, List.cons_append]
          simp only [List.drop_succ_cons, List.drop_zero]
          rw [ih _ hlt hlast next rfl, fields_rowsFrom next next' rest,
            fields_rowsFrom next line more]

/-- A byte order mark is taken from the first line, whatever comes after this. -/
theorem withoutMark_append {heading : List UInt8} (h : ∀ b ∈ heading, isEnding b = false)
    (rest : List UInt8) : withoutMark (heading ++ 10 :: rest) = withoutMark heading ++ 10 :: rest := by
  by_cases hmark : ∃ bs, heading = 0xEF :: 0xBB :: 0xBF :: bs
  · obtain ⟨bs, rfl⟩ := hmark
    rfl
  · have hsame : withoutMark heading = heading := by
      unfold withoutMark
      split
      · next bs => exact absurd ⟨bs, rfl⟩ hmark
      · rfl
    rw [hsame]
    unfold withoutMark
    split
    · next bs hbs =>
      -- The break would stand inside of the mark.
      rcases heading with _ | ⟨x, _ | ⟨y, _ | ⟨z, heading⟩⟩⟩
      · cases hbs
      · cases hbs
      · cases hbs
      · simp only [List.cons_append, List.cons.injEq] at hbs
        obtain ⟨rfl, rfl, rfl, -⟩ := hbs
        exact absurd ⟨heading, rfl⟩ hmark
    · rfl

/-- The rows of a table below its heading. -/
theorem rows_headed {heading : List UInt8} (hne : withoutMark heading ≠ [])
    (h : ∀ b ∈ heading, isEnding b = false) (bs : List UInt8) :
    ((rows (heading ++ 10 :: bs)).map Row.fields).drop 1 = (rowsFrom 1 bs).map Row.fields := by
  have hsub : ∀ b ∈ withoutMark heading, isEnding b = false := by
    intro b hb
    refine h b ?_
    unfold withoutMark at hb
    split at hb
    · exact List.mem_cons_of_mem _ (List.mem_cons_of_mem _ (List.mem_cons_of_mem _ hb))
    · exact hb
  have hbreak : ∀ b, (10 :: bs).head? = some b → isEnding b = true := by
    intro b hb
    rw [← Option.some.inj hb]
    rfl
  obtain ⟨next, hnext⟩ := exists_rowsFrom 1 forall_ending_nil hne hsub hbreak
  rw [List.nil_append] at hnext
  rw [rows, withoutMark_append h, hnext, List.map_cons, List.drop_succ_cons, List.drop_zero,
    fields_rowsFrom next 1]
  rfl

end Rows

/-! ## What rows bring -/

/-- The place of a record only shows in its faults. -/
theorem Outcome.share_ofRecord (place place' : Nat) (ids : List String)
    (licences : List (Except RecordFault Licence)) :
    (ofRecord place ids licences).share = (ofRecord place' ids licences).share := by
  unfold ofRecord
  split <;> rfl

namespace Kbart

open Rows

theorem share_outcome (row : Row) : (outcome row).share = (outcome ⟨1, row.fields⟩).share := by
  obtain ⟨line, fields⟩ := row
  have hembargo : column ⟨line, fields⟩ 12 = column ⟨1, fields⟩ 12 := rfl
  rw [outcome, outcome, hembargo]
  dsimp only
  by_cases hcolumns : fields.length < leastColumns
  · rw [if_pos hcolumns, if_pos hcolumns]
    rfl
  · rw [if_neg hcolumns, if_neg hcolumns]
    cases Embargo.readKbart (column ⟨1, fields⟩ 12) with
    | error fault => rfl
    | ok embargo => exact Outcome.share_ofRecord line 1 _ _

/-- What rows with the given fields bring. -/
def sharesOf (rows : List (List (List UInt8))) : Reading :=
  shares ((rows.filter fun fields => !isBlank ⟨1, fields⟩).map fun fields => outcome ⟨1, fields⟩)

theorem sharesOf_append (rows rows' : List (List (List UInt8))) :
    sharesOf (rows ++ rows') = (sharesOf rows).plus (sharesOf rows') := by
  rw [sharesOf, List.filter_append, List.map_append, shares_append]
  rfl

theorem shares_survey (bs : List UInt8) :
    shares (survey bs).outcomes = sharesOf (((rows bs).map Row.fields).drop 1) := by
  have hblank : (fun row : Row => !isBlank row) = (fun fields => !isBlank ⟨1, fields⟩) ∘ Row.fields :=
    rfl
  rw [survey, sharesOf, ← List.map_drop, List.filter_map, ← hblank, shares, shares, List.map_map,
    List.map_map, List.map_map]
  exact congrArg Reading.total (List.map_congr_left fun row _ => share_outcome row)

theorem parse_lenient (bs : List UInt8) :
    Format.kbart.parse .lenient bs = .ok (sharesOf (((rows bs).map Row.fields).drop 1)) := by
  have hread := (survey bs).read_lenient_eq
  rw [shares_survey] at hread
  exact hread

end Kbart

/-- A table that is cut right after a line break. Under its heading, which has some byte besides a
byte order mark, the two parts bring what the table brings: the licences of the second part come
after those of the first under every identifier, new identifiers come last, and everything that is
counted adds up. -/
theorem Format.parse_lines {heading above : List UInt8} (hne : Rows.withoutMark heading ≠ [])
    (hheading : ∀ b ∈ heading, Rows.isEnding b = false)
    (habove : ∀ b, above.getLast? = some b → Rows.isEnding b = true) (below : List UInt8) :
    ∃ r s : Reading,
      Format.kbart.parse .lenient (heading ++ 10 :: above) = .ok r ∧
      Format.kbart.parse .lenient (heading ++ 10 :: below) = .ok s ∧
      Format.kbart.parse .lenient (heading ++ 10 :: (above ++ below)) =
        .ok ⟨r.registry.merge s.registry, r.report.plus s.report⟩ := by
  refine ⟨_, _, Kbart.parse_lenient _, Kbart.parse_lenient _, ?_⟩
  rw [Kbart.parse_lenient, Rows.rows_headed hne hheading, Rows.rows_headed hne hheading,
    Rows.rows_headed hne hheading, Rows.fields_rowsFrom_append habove, Kbart.sharesOf_append]
  rfl

namespace Format

/-- A heading behind a byte order mark. -/
def markedHeading : List UInt8 := byteOrderMark ++ Text.Utf8.encode "title\tprint".toList

/-- A row with a serial number, a row that is too short, and breaks of both kinds. -/
def firstTitles : List UInt8 :=
  Text.Utf8.encode "A\t1234-5678\t\t2000\t\t\t\t\t\t\t\t\t\r\n\nB\t2222-2222\r\n".toList

/-- A row with the same serial number, which no break ends. -/
def lastTitle : List UInt8 := Text.Utf8.encode "A\t12345678\t\t\t\t\t2005\t\t\t\t\t\tP1Y".toList

theorem parse_lines_sameSerial :
    Rows.withoutMark markedHeading ≠ [] ∧ (∀ b ∈ markedHeading, Rows.isEnding b = false) ∧
      (∀ b, firstTitles.getLast? = some b → Rows.isEnding b = true) ∧
      ∃ r s : Reading,
        Format.kbart.parse .lenient (markedHeading ++ 10 :: firstTitles) = .ok r ∧
        Format.kbart.parse .lenient (markedHeading ++ 10 :: lastTitle) = .ok s ∧
        Format.kbart.parse .lenient (markedHeading ++ 10 :: (firstTitles ++ lastTitle)) =
          .ok ⟨r.registry.merge s.registry, r.report.plus s.report⟩ := by
  have hheading : ∀ b ∈ markedHeading, Rows.isEnding b = false := forall_mem_of_all (by decide)
  have hlast : firstTitles.getLast? = some 10 := by cbv
  have hends : ∀ b, firstTitles.getLast? = some b → Rows.isEnding b = true := by
    intro b hb
    rw [hlast] at hb
    rw [← Option.some.inj hb]
    rfl
  exact ⟨by decide, hheading, hends, parse_lines (by decide) hheading hends lastTitle⟩

end Format

end Holdings
