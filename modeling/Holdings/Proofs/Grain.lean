import Holdings.Proofs.Wall
/-!
# Walls at different grains

One wall can be compared as an instant, by its month or by its year, and access can end or begin
at it. What comes first at a coarse grain comes first at a fine one, since neither the months nor
the years of instants ever go back. So where access ends at the wall, a coarser grain withholds
more: the rest of the month or of the year. Where access begins there, a coarser grain withholds
less, and the same part of the period is given.

A month or year is thus withheld on exactly one side of the wall. An instant on neither side would
be withheld twice, so a wall that is compared as an instant is open on both sides, and what is
published at that instant gets past it in both directions.
-/

namespace Holdings

namespace Instant

variable {a b : Instant}

/-- Only an instant compares as equal with itself. -/
theorem compare_eq_iff : a.compare b = .eq ↔ a = b := by
  obtain ⟨seconds, nanos⟩ := a
  obtain ⟨seconds', nanos'⟩ := b
  simp only [compare, Ordering.then_eq_eq, Std.compare_eq_iff_eq, Instant.mk.injEq]

/-- Of two months the later lies in no earlier year. -/
theorem year_le_of_month_le (h : a.month ≤ b.month) : a.year ≤ b.year := by
  have ha := Calendar.one_le_monthOfDay a.day
  have hb := Calendar.monthOfDay_le b.day
  simp only [month] at h
  omega

end Instant

namespace Coverage

variable {a b p w : Instant} {g g' : Grain}

/-! ## Coarser and finer grains -/

/-- A coarser grain, of which a unit has more days, does not turn round what a finer one has put in
order. -/
theorem isLE_compareAt_coarser (h : g.days ≤ g'.days) (hab : (compareAt g a b).isLE) :
    (compareAt g' a b).isLE := by
  cases g with
  | day => exact isLE_compareAt g' hab
  | month =>
      cases g' with
      | day => exact absurd h (by decide)
      | month => exact hab
      | year =>
          have hmonth : a.month ≤ b.month := Std.isLE_compare.mp hab
          exact Std.isLE_compare.mpr (Instant.year_le_of_month_le hmonth)
  | year =>
      cases g' with
      | day | month => exact absurd h (by decide)
      | year => exact hab

/-- What comes first at a coarser grain comes first at a finer one. -/
theorem compareAt_lt_finer (h : g.days ≤ g'.days) (hab : compareAt g' a b = .lt) :
    compareAt g a b = .lt := by
  by_contra hge
  have hba : (compareAt g b a).isLE :=
    Std.OrientedCmp.isLE_of_isGE (Ordering.isGE_iff_ne_lt.mpr hge)
  have hle := isLE_compareAt_coarser h hba
  exact absurd hle (by simp [Std.OrientedCmp.gt_of_lt hab])

/-! ## What a wall withholds at a grain -/

variable {n : Int}

theorem isWithheld_ending_day :
    isWithheld ⟨n, false, .day⟩ p w = false ↔ (p.compare w).isLE := by
  rw [Ordering.isLE_iff_ne_gt]
  exact decide_eq_false_iff_not

theorem isWithheld_ending (hg : g ≠ .day) :
    isWithheld ⟨n, false, g⟩ p w = false ↔ compareAt g p w = .lt := by
  simp [isWithheld, hg]

theorem isWithheld_beginning :
    isWithheld ⟨n, true, g⟩ p w = false ↔ compareAt g p w ≠ .lt := by
  simp [isWithheld]

end Coverage

namespace Licence

open Coverage

variable {l : Licence} {target : Signature} {now wall : Instant} {day : Calendar.Date} {g : Grain}

/-! ## Licences with another wall -/

/-- The licence with a wall in the same place that withholds a given side at a given grain. -/
def withWall (l : Licence) (disallowsEarlier : Bool) (g : Grain) : Licence :=
  { l with embargo := ⟨l.embargo.seconds, disallowsEarlier, g⟩ }

/-- Access ends at the wall. -/
abbrev endingAt (l : Licence) (g : Grain) : Licence := l.withWall false g

/-- Access begins at the wall. -/
abbrev beginningAt (l : Licence) (g : Grain) : Licence := l.withWall true g

/-- Neither bound of a licence objects to a target. -/
def Frames (l : Licence) (target : Signature) : Prop :=
  checkFirst l.first target = .ok () ∧ checkLast l.last target = .ok ()

theorem covers_withWall_iff {r : Bool} (hw : l.wall? now = some wall)
    (hd : target.date.firstDay? = some day) :
    (l.withWall r g).covers target now = .ok () ↔
      l.Frames target ∧
        isWithheld ⟨l.embargo.seconds, r, g⟩ (Instant.startOf day) wall = false := by
  have hhas : (l.withWall r g).hasWall = true := (wall?_eq_some_iff.mp hw).1
  have hwall : (l.withWall r g).wall? now = some wall := hw
  have hcheck : checkWall (l.withWall r g) target now = .ok () ↔
      isWithheld ⟨l.embargo.seconds, r, g⟩ (Instant.startOf day) wall = false := by
    rw [checkWall_eq_ok_iff]
    constructor
    · intro h
      obtain ⟨wall', day', hwall', hd', hout⟩ := h hhas
      obtain rfl : wall = wall' := Option.some.inj (hwall.symm.trans hwall')
      obtain rfl : day = day' := Option.some.inj (hd.symm.trans hd')
      exact hout
    · intro hout _
      exact ⟨wall, day, hwall, hd, hout⟩
  rw [covers_eq_ok_iff, hcheck, ← and_assoc, ← checkFirst_eq_ok_iff, ← checkLast_eq_ok_iff]
  rfl

section

variable (hw : l.wall? now = some wall) (hd : target.date.firstDay? = some day)
include hw hd

theorem covers_endingAt_day :
    (l.endingAt .day).covers target now = .ok () ↔
      l.Frames target ∧ ((Instant.startOf day).compare wall).isLE :=
  (covers_withWall_iff hw hd).trans (and_congr_right fun _ => isWithheld_ending_day)

theorem covers_endingAt (hg : g ≠ .day) :
    (l.endingAt g).covers target now = .ok () ↔
      l.Frames target ∧ compareAt g (Instant.startOf day) wall = .lt :=
  (covers_withWall_iff hw hd).trans (and_congr_right fun _ => isWithheld_ending hg)

theorem covers_beginningAt :
    (l.beginningAt g).covers target now = .ok () ↔
      l.Frames target ∧ compareAt g (Instant.startOf day) wall ≠ .lt :=
  (covers_withWall_iff hw hd).trans (and_congr_right fun _ => isWithheld_beginning)

/-- Where access begins at the wall, a coarser grain covers more. -/
theorem covers_beginningAt_coarser {g' : Grain} (h : g.days ≤ g'.days)
    (hc : (l.beginningAt g).covers target now = .ok ()) :
    (l.beginningAt g').covers target now = .ok () := by
  obtain ⟨hframes, hge⟩ := (covers_beginningAt hw hd).mp hc
  refine (covers_beginningAt hw hd).mpr ⟨hframes, ?_⟩
  intro hlt
  exact hge (compareAt_lt_finer h hlt)

/-- Where access ends at the wall, a finer grain covers more. -/
theorem covers_endingAt_finer {g' : Grain} (hg : g' ≠ .day) (h : g.days ≤ g'.days)
    (hc : (l.endingAt g').covers target now = .ok ()) :
    (l.endingAt g).covers target now = .ok () := by
  obtain ⟨hframes, hlt⟩ := (covers_endingAt hw hd hg).mp hc
  have hfiner := compareAt_lt_finer h hlt
  by_cases hday : g = .day
  · subst hday
    have hle : ((Instant.startOf day).compare wall).isLE := Ordering.isLE_of_eq_lt hfiner
    exact (covers_endingAt_day hw hd).mpr ⟨hframes, hle⟩
  · exact (covers_endingAt hw hd hday).mpr ⟨hframes, hfiner⟩

/-- At a coarse grain every target between the bounds is on one side of the wall. -/
theorem covers_endingAt_iff_not (hframes : l.Frames target) (hg : g ≠ .day) :
    (l.endingAt g).covers target now = .ok () ↔
      ¬ (l.beginningAt g).covers target now = .ok () := by
  rw [covers_endingAt hw hd hg, covers_beginningAt hw hd]
  simp [hframes]

/-- Compared as an instant, the wall itself is on both sides. -/
theorem covers_day_and_iff (hframes : l.Frames target) :
    (l.endingAt .day).covers target now = .ok () ∧
      (l.beginningAt .day).covers target now = .ok () ↔ Instant.startOf day = wall := by
  rw [covers_endingAt_day hw hd, covers_beginningAt hw hd, ← Instant.compare_eq_iff]
  show (_ ∧ ((Instant.startOf day).compare wall).isLE) ∧
    (_ ∧ (Instant.startOf day).compare wall ≠ .lt) ↔ _
  cases (Instant.startOf day).compare wall <;> simp [hframes]

theorem covers_day_or (hframes : l.Frames target) :
    (l.endingAt .day).covers target now = .ok () ∨
      (l.beginningAt .day).covers target now = .ok () := by
  rw [covers_endingAt_day hw hd, covers_beginningAt hw hd]
  show (_ ∧ ((Instant.startOf day).compare wall).isLE) ∨
    (_ ∧ (Instant.startOf day).compare wall ≠ .lt)
  cases (Instant.startOf day).compare wall <;> simp [hframes]

/-- Six walls in one place. Where access ends at the wall, each finer grain covers all that a coarser
one does, and nothing is covered that is published after the wall. Where access begins there, each
coarser grain covers all that a finer one does. Between the bounds a month or year is covered in
exactly one of the directions and an instant in at least one, and in both only the wall itself. -/
theorem covers_at_grains :
    ((l.endingAt .year).covers target now = .ok () →
      (l.endingAt .month).covers target now = .ok ()) ∧
    ((l.endingAt .month).covers target now = .ok () →
      (l.endingAt .day).covers target now = .ok ()) ∧
    ((l.endingAt .day).covers target now = .ok () → ((Instant.startOf day).compare wall).isLE) ∧
    ((l.beginningAt .day).covers target now = .ok () →
      (l.beginningAt .month).covers target now = .ok ()) ∧
    ((l.beginningAt .month).covers target now = .ok () →
      (l.beginningAt .year).covers target now = .ok ()) ∧
    (l.Frames target →
      ((l.endingAt .month).covers target now = .ok () ↔
        ¬ (l.beginningAt .month).covers target now = .ok ()) ∧
      ((l.endingAt .year).covers target now = .ok () ↔
        ¬ (l.beginningAt .year).covers target now = .ok ()) ∧
      ((l.endingAt .day).covers target now = .ok () ∨
        (l.beginningAt .day).covers target now = .ok ()) ∧
      ((l.endingAt .day).covers target now = .ok () ∧
        (l.beginningAt .day).covers target now = .ok () ↔ Instant.startOf day = wall)) := by
  refine ⟨?_, ?_, ?_, ?_, ?_, ?_⟩
  · exact covers_endingAt_finer hw hd nofun (by decide)
  · exact covers_endingAt_finer hw hd nofun (by decide)
  · intro hc
    exact ((covers_endingAt_day hw hd).mp hc).2
  · exact covers_beginningAt_coarser hw hd (by decide)
  · exact covers_beginningAt_coarser hw hd (by decide)
  · intro hframes
    exact ⟨covers_endingAt_iff_not hw hd hframes nofun,
      covers_endingAt_iff_not hw hd hframes nofun, covers_day_or hw hd hframes,
      covers_day_and_iff hw hd hframes⟩

end

/-- A licence for all but the last year. -/
def withoutLastYear : Licence := ⟨.unset, .unset, ⟨-31536000, false, .year⟩⟩

/-- In the middle of 2020 the wall stands at the beginning of a day of 2019, and what is published
on this day is covered in both directions. -/
theorem withoutLastYear_day :
    withoutLastYear.wall? ⟨1590969600, 0⟩ = some ⟨1559433600, 0⟩ ∧
      withoutLastYear.Frames ⟨⟨2019, some 6, some 2⟩, "", ""⟩ ∧
      (withoutLastYear.endingAt .day).covers ⟨⟨2019, some 6, some 2⟩, "", ""⟩ ⟨1590969600, 0⟩ =
        .ok () ∧
      (withoutLastYear.beginningAt .day).covers ⟨⟨2019, some 6, some 2⟩, "", ""⟩
        ⟨1590969600, 0⟩ = .ok () := by
  have hw : withoutLastYear.wall? ⟨1590969600, 0⟩ = some ⟨1559433600, 0⟩ := rfl
  have hd : (Signature.mk ⟨2019, some 6, some 2⟩ "" "").date.firstDay? = some ⟨2019, 6, 2, rfl⟩ :=
    rfl
  have hframes : withoutLastYear.Frames ⟨⟨2019, some 6, some 2⟩, "", ""⟩ := ⟨rfl, rfl⟩
  obtain ⟨-, -, -, -, -, hbetween⟩ := covers_at_grains hw hd
  exact ⟨hw, hframes, (hbetween hframes).2.2.2.mpr rfl⟩

end Licence

end Holdings
