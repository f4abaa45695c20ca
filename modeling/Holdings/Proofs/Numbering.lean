import Holdings.Proofs.Accounts
import Holdings.Proofs.Splitting
/-!
# The lines of rows at fault

A table that may not be read on is refused with the fault of the first row below the heading that
its policy does not let pass, and the fault names a line. This is the line on which the row above
ends: it counts the line feeds up to the byte that ends that row, and neither the line feed that a
carriage return has in front of it nor those of empty lines (`Kbart.fault_line`). The number is the
one of the row at fault exactly if nothing but that one byte stands between the two rows.
-/

namespace Holdings

namespace Rows

/-- A document cut at one of its rows: the bytes in front up to the one that ends the row above, the
breaks that follow it, the bytes of the row, and what comes after them. -/
structure Cut where
  front : List UInt8
  gap : List UInt8
  body : List UInt8
  rest : List UInt8

namespace Cut

/-- The bytes of the document. -/
def write (c : Cut) : List UInt8 := c.front ++ (c.gap ++ (c.body ++ c.rest))

/-- The number of the line that holds the row, counted by line feeds. -/
def lineNumber (c : Cut) : Nat := lineFeeds (c.front ++ c.gap) + 1

/-- The number of the line on which the row above ends. -/
def lineAbove (c : Cut) : Nat := lineFeeds c.front + 1

/-- The row as a reader of rows has it. -/
def row (c : Cut) : Row := ⟨c.lineAbove, fields c.body⟩

/-- Nothing but breaks is in the gap, and the row goes from there to the next break. -/
structure Fits (c : Cut) : Prop where
  gap : ∀ b ∈ c.gap, isEnding b = true
  body_ne : c.body ≠ []
  body : ∀ b ∈ c.body, isEnding b = false
  rest : ∀ b, c.rest.head? = some b → isEnding b = true

/-- In front of the row is another one, of which the last byte in front is the end. -/
def IsBelow (c : Cut) : Prop :=
  ∃ above b e, c.front = above ++ [b, e] ∧ isEnding b = false ∧ isEnding e = true

/-- The number of a row is the line on which the row above ends; the gap does not count. -/
theorem lineAbove_add_gap (c : Cut) : c.lineAbove + lineFeeds c.gap = c.lineNumber := by
  rw [lineAbove, lineNumber, lineFeeds, lineFeeds, lineFeeds, List.count_append]
  omega

end Cut

theorem lineFeeds_eq_zero {body : List UInt8} (h : ∀ b ∈ body, isEnding b = false) :
    lineFeeds body = 0 := by
  rw [lineFeeds, List.count_eq_zero]
  intro hm
  cases h 10 hm

/-- Every row stands somewhere: the document can be cut there so that the rows above are those of
the bytes in front, and the line of the row counts the line feeds in front. -/
theorem exists_cut {above below : List Row} {row : Row} (line : Nat) (bs : List UInt8)
    (h : rowsFrom line bs = above ++ row :: below) :
    ∃ c : Cut, c.write = bs ∧ c.Fits ∧ row = ⟨line + lineFeeds c.front, fields c.body⟩ ∧
      rowsFrom line c.front = above ∧ (above = [] ∧ c.front = [] ∨ c.IsBelow) := by
  induction above generalizing line bs with
  | nil =>
      rcases exists_firstRow bs with hbs | ⟨ends, body, rest, rfl, hends, hne, hbody, hrest⟩
      · rw [rowsFrom_endings line hbs] at h
        cases h
      · rw [rowsFrom_append line hends hne hbody hrest, List.nil_append] at h
        refine ⟨⟨[], ends, body, rest⟩, rfl, ⟨hends, hne, hbody, hrest⟩,
          (List.cons.inj h).1.symm, rowsFrom_endings line forall_ending_nil, .inl ⟨rfl, rfl⟩⟩
  | cons first above ih =>
      rcases exists_firstRow bs with hbs | ⟨ends, body, rest, rfl, hends, hne, hbody, hrest⟩
      · rw [rowsFrom_endings line hbs] at h
        cases h
      · rw [rowsFrom_append line hends hne hbody hrest, List.cons_append] at h
        obtain ⟨rfl, hnext⟩ := List.cons.inj h
        -- The first row is not the last one, so a break ends it.
        cases rest with
        | nil =>
            rw [List.drop_nil, rowsFrom_endings _ forall_ending_nil] at hnext
            cases above <;> cases hnext
        | cons e rest =>
            have he : isEnding e = true := hrest e rfl
            obtain ⟨c, hwrite, hfits, hrow, habove, hbelow⟩ := ih _ _ hnext
            have hfront : ∀ b, (e :: c.front).head? = some b → isEnding b = true :=
              fun b hb => Option.some.inj hb ▸ he
            have hcount : lineFeeds (ends ++ (body ++ e :: c.front)) =
                lineFeeds ends + lineFeeds [e] + lineFeeds c.front := by
              have hzero := lineFeeds_eq_zero hbody
              have hcons : e :: c.front = [e] ++ c.front := rfl
              rw [lineFeeds] at hzero
              rw [hcons]
              simp only [lineFeeds, List.count_append, hzero]
              omega
            refine ⟨⟨ends ++ (body ++ e :: c.front), c.gap, c.body, c.rest⟩, ?_,
              ⟨hfits.gap, hfits.body_ne, hfits.body, hfits.rest⟩, ?_, ?_, .inr ?_⟩
            · rw [List.drop_succ_cons, List.drop_zero] at hwrite
              rw [← hwrite]
              simp [Cut.write]
            · rw [hrow, hcount]
              simp only [List.take_succ_cons, List.take_zero, Nat.add_assoc]
            · rw [rowsFrom_append line hends hne hbody hfront]
              exact congrArg _ habove
            · rcases hbelow with ⟨-, hnil⟩ | ⟨init, b, e', hinit, hb, he'⟩
              · obtain ⟨init, b, rfl⟩ : ∃ init b, body = init ++ [b] :=
                  ⟨_, _, (List.dropLast_concat_getLast hne).symm⟩
                refine ⟨ends ++ init, b, e, ?_, hbody b (by simp), he⟩
                simp [hnil]
              · refine ⟨ends ++ (body ++ e :: init), b, e', ?_, hb, he'⟩
                simp [hinit]

/-- A document starts with a byte order mark, or it is the same without one. -/
theorem withoutMark_cases (bs : List UInt8) :
    bs = Format.byteOrderMark ++ withoutMark bs ∨
      withoutMark bs = bs ∧ ¬ Format.byteOrderMark <+: bs := by
  unfold withoutMark
  split
  · exact .inl rfl
  · next hno => exact .inr ⟨rfl, fun ⟨rest, hrest⟩ => hno rest hrest.symm⟩

/-- The same for a whole document, with a byte order mark in front or without it. -/
theorem exists_cut_rows {above below : List Row} {row : Row} {bs : List UInt8} (hne : above ≠ [])
    (h : rows bs = above ++ row :: below) :
    ∃ c : Cut, c.write = bs ∧ c.Fits ∧ c.IsBelow ∧ row = c.row ∧ rows c.front = above := by
  obtain ⟨c, hwrite, hfits, hrow, habove, hplace⟩ := exists_cut 1 (withoutMark bs) h
  obtain ⟨init, b, e, hinit, hb, he⟩ : c.IsBelow := hplace.resolve_left fun hnil => hne hnil.1
  rcases withoutMark_cases bs with hmarked | ⟨hsame, hunmarked⟩
  · refine ⟨⟨Format.byteOrderMark ++ c.front, c.gap, c.body, c.rest⟩, ?_,
      ⟨hfits.gap, hfits.body_ne, hfits.body, hfits.rest⟩,
      ⟨Format.byteOrderMark ++ init, b, e, ?_, hb, he⟩, ?_, habove⟩
    · rw [hmarked, ← hwrite, Cut.write, Cut.write, List.append_assoc]
    · rw [hinit, List.append_assoc]
    · have hfeeds : lineFeeds (Format.byteOrderMark ++ c.front) = lineFeeds c.front := by
        simp [lineFeeds, Format.byteOrderMark]
      rw [hrow, Cut.row, Cut.lineAbove, hfeeds, Nat.add_comm]
  · refine ⟨c, hwrite.trans hsame, hfits, ⟨init, b, e, hinit, hb, he⟩, ?_, ?_⟩
    · rw [hrow, Cut.row, Cut.lineAbove, Nat.add_comm]
    · have hfront : ¬ Format.byteOrderMark <+: c.front := by
        intro hmark
        rw [hsame] at hwrite
        exact hunmarked (hmark.trans ⟨_, hwrite⟩)
      rw [rows, ((withoutMark_cases c.front).resolve_left fun heq => hfront ⟨_, heq.symm⟩).1]
      exact habove

end Rows

/-- The line that a fault names, if it does. -/
def RecordFault.line? : RecordFault → Option Nat
  | .incompleteLine line _ => some line
  | .missingIdentifiers line => some line
  | .invalidEmbargo _ => none
  | .malformed .. => none

namespace Kbart

open Rows

/-- The faults of a row; a blank row has none. -/
def faultsOf (row : Row) : List RecordFault := if isBlank row then [] else (outcome row).faults

theorem faults_survey (bs : List UInt8) :
    (survey bs).faults = ((rows bs).drop 1).flatMap faultsOf := by
  rw [Survey.faults, survey]
  dsimp only
  induction (rows bs).drop 1 with
  | nil => rfl
  | cons row rest ih =>
      rw [List.flatMap_cons, ← ih, List.filter_cons, faultsOf]
      cases isBlank row <;> rfl

/-- A table is refused for the first fault below the heading that the policy does not allow. -/
theorem firstDenied?_of_parse {p : SkipPolicy} {bs : List UInt8} {fault : RecordFault}
    (h : Format.kbart.parse p bs = .error (.record fault)) :
    p.firstDenied? (survey bs).faults = some fault := by
  have hread := (survey bs).read_eq p
  obtain ⟨r, hlenient, -⟩ := (survey bs).read_lenient
  rw [hlenient] at hread
  cases hdenied : p.firstDenied? (survey bs).faults with
  | none =>
      rw [hdenied] at hread
      cases hread.symm.trans h
  | some denied =>
      rw [hdenied] at hread
      cases hread.symm.trans h
      rfl

/-- The line that the fault of a row names is the one that the row has. -/
theorem line_of_outcome {row : Row} {fault : RecordFault} (h : outcome row = .refused fault)
    {line : Nat} (hline : fault.line? = some line) : line = row.line := by
  unfold outcome at h
  split at h
  · cases h
    exact (Option.some.inj hline).symm
  · split at h
    · next embargo hembargo =>
      cases h
      rw [(Embargo.orQuoted_eq_error_iff.mp hembargo).2] at hline
      cases hline
    · next embargo hembargo =>
      rcases Outcome.ofRecord_cases row.line (identifiers row)
        [.ok ⟨signature row 3, signature row 6, embargo⟩] with hrefused | ⟨-, hgranted⟩
      · rw [hrefused] at h
        cases h
        exact (Option.some.inj hline).symm
      · rw [hgranted] at h
        cases h

/-- A table that is refused for a record is refused for the first row below the heading with a fault
that the policy does not allow. If the fault names a line, it is the line on which the row above
ends: it falls short of the line that holds the row by the line feeds between the byte that ends the
row above and the row itself. -/
theorem fault_line {p : SkipPolicy} {bs : List UInt8} {fault : RecordFault}
    (h : Format.kbart.parse p bs = .error (.record fault)) :
    ∃ c : Cut, c.write = bs ∧ c.Fits ∧ c.IsBelow ∧
      (∃ below, rows bs = rows c.front ++ c.row :: below) ∧
      (∀ row ∈ (rows c.front).drop 1, isBlank row = true ∨
        ∀ f ∈ (outcome row).faults, p.allows f = true) ∧
      isBlank c.row = false ∧ outcome c.row = .refused fault ∧ p.allows fault = false ∧
      ∀ line, fault.line? = some line →
        line = c.lineAbove ∧ line + lineFeeds c.gap = c.lineNumber := by
  have hfirst := firstDenied?_of_parse h
  rw [faults_survey, SkipPolicy.firstDenied?, List.find?_flatMap] at hfirst
  obtain ⟨passed, row, below, hrows, hrow, hpassed⟩ := List.findSome?_eq_some_iff.mp hfirst
  obtain ⟨heading, hheading⟩ : ∃ heading, rows bs = heading :: (passed ++ row :: below) := by
    cases hbs : rows bs with
    | nil =>
        rw [hbs] at hrows
        cases passed <;> cases hrows
    | cons heading rest =>
        rw [hbs, List.drop_succ_cons, List.drop_zero] at hrows
        exact ⟨heading, congrArg _ hrows⟩
  obtain ⟨c, hwrite, hfits, hbelow, rfl, hfront⟩ :=
    exists_cut_rows (List.cons_ne_nil heading passed) hheading
  obtain ⟨hdenied, hmem⟩ : p.allows fault = false ∧ fault ∈ faultsOf c.row :=
    ⟨by simpa using List.find?_some hrow, List.mem_of_find?_eq_some hrow⟩
  have hblank : isBlank c.row = false := by
    rw [faultsOf] at hmem
    split at hmem
    · cases hmem
    · next hno => exact Bool.of_not_eq_true hno
  have houtcome : outcome c.row = .refused fault := by
    rw [faultsOf, hblank] at hmem
    rcases outcome_cases c.row with ⟨f, hrefused, -⟩ | ⟨l, -, hgranted⟩
    · rw [hrefused] at hmem ⊢
      rw [List.mem_singleton.mp hmem]
    · rw [hgranted] at hmem
      cases hmem
  refine ⟨c, hwrite, hfits, hbelow, ⟨below, ?_⟩, ?_, hblank, houtcome, hdenied, ?_⟩
  · rw [hfront]
    exact hheading
  · rw [hfront, List.drop_succ_cons, List.drop_zero]
    intro row hmem
    have hnone := hpassed row hmem
    rw [faultsOf] at hnone
    split at hnone
    · next hyes => exact .inl hyes
    · exact .inr (by simpa using hnone)
  · intro line hline
    have hlines : line = c.lineAbove := line_of_outcome houtcome hline
    exact ⟨hlines, hlines ▸ c.lineAbove_add_gap⟩

/-- A table behind a byte order mark with breaks of all kinds: its first row has no identifiers,
and the second one is too short. -/
def mixedBreaks : List UInt8 :=
  Format.byteOrderMark ++
    Text.Utf8.encode "title\r\n\r\nA\t\t\t\t\t\t\t\t\t\t\t\t\n\nB\r".toList

theorem fault_line_mixedBreaks :
    Format.kbart.parse ⟨true, false, true, true⟩ mixedBreaks =
        .error (.record (.incompleteLine 4 1)) ∧
      ∃ c : Cut, c.write = mixedBreaks ∧ c.Fits ∧ outcome c.row = .refused (.incompleteLine 4 1) ∧
        4 = c.lineAbove ∧ 4 + lineFeeds c.gap = c.lineNumber := by
  have h : Format.kbart.parse ⟨true, false, true, true⟩ mixedBreaks =
      .error (.record (.incompleteLine 4 1)) := by cbv
  obtain ⟨c, hwrite, hfits, -, -, -, -, houtcome, -, hline⟩ := fault_line h
  exact ⟨h, c, hwrite, hfits, houtcome, hline 4 rfl⟩

/-- A heading, an empty line, and a row that is too short. -/
def belowEmptyLine : Cut where
  front := Text.Utf8.encode "title\n".toList
  gap := Text.Utf8.encode "\n".toList
  body := Text.Utf8.encode "A".toList
  rest := Text.Utf8.encode "\n".toList

/-- The row is on the third line, and its fault names the second one. -/
theorem fault_belowEmptyLine_names_heading :
    belowEmptyLine.Fits ∧ belowEmptyLine.IsBelow ∧
      (rows belowEmptyLine.write).drop 1 = [belowEmptyLine.row] ∧
      Format.kbart.parse .strict belowEmptyLine.write = .error (.record (.incompleteLine 2 1)) ∧
      belowEmptyLine.lineNumber = 3 := by
  have hgap : ∀ b ∈ belowEmptyLine.gap, isEnding b = true := forall_mem_of_all (by decide)
  have hbody : ∀ b ∈ belowEmptyLine.body, isEnding b = false := forall_mem_of_all (by decide)
  have hrest : ∀ b, belowEmptyLine.rest.head? = some b → isEnding b = true := by
    intro b hb
    cases hb
    rfl
  have hbelow : belowEmptyLine.IsBelow :=
    ⟨Text.Utf8.encode "titl".toList, 101, 10, by decide, rfl, rfl⟩
  exact ⟨⟨hgap, by decide, hbody, hrest⟩, hbelow, by cbv, by cbv, by decide⟩

end Kbart

end Holdings
