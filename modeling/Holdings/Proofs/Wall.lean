import Holdings.Proofs.Boundary
import Holdings.Proofs.Calendar
/-!
# Moving walls in time

Outside of leap seconds a wall keeps its distance from the present, so it stands the later, the
later it is asked about. What it withholds is compared in the grain of the embargo, and no grain
turns the order of two instants round. Hence a wall that withholds what comes after it lets more
and more through, and a wall that withholds what comes before it less and less.

A wall that can not be placed withholds everything. This does not disturb the first direction:
between a wall that has a place and a present that has one, every later wall has a place too.
-/

namespace Holdings

namespace Instant

variable {a b w : Instant} {d : Int}

/-! ## Moving instants -/

theorem shift_eq (h : a.inLeapSecond = false) (d : Int) : a.shift d = ⟨a.seconds + d, a.nanos⟩ := by
  simp [shift, h]

theorem shift_mono (ha : a.inLeapSecond = false) (hb : b.inLeapSecond = false)
    (h : (a.compare b).isLE) (d : Int) : ((a.shift d).compare (b.shift d)).isLE := by
  rw [shift_eq ha, shift_eq hb]
  rw [isLE_compare_iff] at h ⊢
  simp only
  omega

theorem plus?_eq_some_iff : a.plus? d = some w ↔ (a.shift d).inCalendar = true ∧ a.shift d = w := by
  unfold plus?
  split <;> simp_all

theorem inCalendar_of_between (ha : a.inCalendar = true) (hb : b.inCalendar = true)
    (h₁ : (a.compare w).isLE) (h₂ : (w.compare b).isLE) : w.inCalendar = true := by
  have h₁ := day_mono h₁
  have h₂ := day_mono h₂
  simp only [inCalendar, Bool.and_eq_true, decide_eq_true_eq] at ha hb ⊢
  omega

end Instant

namespace Coverage

/-! ## What a wall withholds -/

variable {p w w' : Instant} {e : Embargo}

instance (g : Grain) : Std.TransCmp (compareAt g) :=
  match g with
  | .day => inferInstanceAs (Std.TransCmp Instant.compare)
  | .month => inferInstanceAs (Std.TransCmp (compareOn Instant.month))
  | .year => inferInstanceAs (Std.TransCmp (compareOn Instant.year))

/-- A grain may take two instants for one, but it does not turn them round. -/
theorem isLE_compareAt (g : Grain) (h : (w.compare w').isLE) : (compareAt g w w').isLE := by
  cases g with
  | day => exact h
  | month => exact Std.isLE_compare.mpr (Instant.month_mono h)
  | year => exact Std.isLE_compare.mpr (Instant.year_mono h)

/-- Where access ends at the wall, an earlier wall withholds more. -/
theorem isWithheld_of_later_wall (he : e.disallowsEarlier = false) (h : (w.compare w').isLE)
    (hw : isWithheld e p w' = true) : isWithheld e p w = true := by
  have hle := isLE_compareAt e.grain h
  simp only [isWithheld, he, Bool.false_eq_true, if_false] at hw ⊢
  by_cases hg : e.grain = .day
  · rw [if_pos hg, decide_eq_true_eq] at hw ⊢
    exact Std.TransCmp.gt_of_gt_of_isGE hw (Std.OrientedCmp.isGE_of_isLE hle)
  · rw [if_neg hg, decide_eq_true_eq] at hw ⊢
    intro hp
    exact hw (Std.TransCmp.lt_of_lt_of_isLE hp hle)

/-- Where access begins at the wall, a later wall withholds more. -/
theorem isWithheld_of_earlier_wall (he : e.disallowsEarlier = true) (h : (w.compare w').isLE)
    (hw : isWithheld e p w = true) : isWithheld e p w' = true := by
  simp only [isWithheld, he, if_true, decide_eq_true_eq] at hw ⊢
  exact Std.TransCmp.lt_of_lt_of_isLE hw (isLE_compareAt e.grain h)

/-! ## Licences in time -/

theorem checkWall_eq_ok_iff {l : Licence} {target : Signature} {now : Instant} :
    checkWall l target now = .ok () ↔
      (l.hasWall = true → ∃ wall day, l.wall? now = some wall ∧
        target.date.firstDay? = some day ∧
        isWithheld l.embargo (Instant.startOf day) wall = false) := by
  unfold checkWall
  cases l.hasWall with
  | false => simp
  | true =>
      cases l.wall? now with
      | none => simp
      | some wall =>
          cases target.date.firstDay? with
          | none => simp
          | some day => cases h : isWithheld l.embargo (Instant.startOf day) wall <;> simp [h]

end Coverage

namespace Licence

open Coverage

variable {l : Licence} {target : Signature} {now now' wall wall' : Instant}

theorem wall?_eq_some_iff :
    l.wall? now = some wall ↔ l.hasWall = true ∧ now.plus? l.embargo.seconds = some wall := by
  unfold wall?
  cases l.hasWall <;> simp

/-- A wall never moves back. -/
theorem wall?_mono (h₁ : now.inLeapSecond = false) (h₂ : now'.inLeapSecond = false)
    (h : (now.compare now').isLE) (hw : l.wall? now = some wall)
    (hw' : l.wall? now' = some wall') : (wall.compare wall').isLE := by
  obtain ⟨-, hw⟩ := wall?_eq_some_iff.mp hw
  obtain ⟨-, hw'⟩ := wall?_eq_some_iff.mp hw'
  rw [← (Instant.plus?_eq_some_iff.mp hw).2, ← (Instant.plus?_eq_some_iff.mp hw').2]
  exact Instant.shift_mono h₁ h₂ h l.embargo.seconds

/-- A wall that has a place keeps one while the present is in the calendar: it lies between its
earlier place and the present. -/
theorem exists_wall?_later (h₁ : now.inLeapSecond = false) (h₂ : now'.inLeapSecond = false)
    (h : (now.compare now').isLE) (hc : now'.inCalendar = true) (hw : l.wall? now = some wall) :
    ∃ wall', l.wall? now' = some wall' := by
  obtain ⟨hl, hw⟩ := wall?_eq_some_iff.mp hw
  have hs := (Instant.plus?_eq_some_iff.mp hw).1
  have hback : ((now'.shift l.embargo.seconds).compare now').isLE := by
    have hneg : l.embargo.seconds < 0 := of_decide_eq_true hl
    rw [Instant.shift_eq h₂, Instant.isLE_compare_iff]
    simp only
    omega
  have hin := Instant.inCalendar_of_between hs hc (Instant.shift_mono h₁ h₂ h _) hback
  exact ⟨_, wall?_eq_some_iff.mpr ⟨hl, Instant.plus?_eq_some_iff.mpr ⟨hin, rfl⟩⟩⟩

/-- What a licence covers, another one with the same bounds covers at another time, if its wall has a
place then and withholds nothing more from there. -/
theorem covers_of_wall {l' : Licence} (h : l.covers target now = .ok ())
    (hfirst : l.first = l'.first) (hlast : l.last = l'.last)
    (hhas : l'.hasWall = true → l.hasWall = true)
    (hw : ∀ wall, l.wall? now = some wall → ∃ wall', l'.wall? now' = some wall' ∧
      ∀ p, isWithheld l'.embargo p wall' = true → isWithheld l.embargo p wall = true) :
    l'.covers target now' = .ok () := by
  obtain ⟨hf, hl, hwall⟩ := covers_eq_ok_iff.mp h
  refine covers_eq_ok_iff.mpr ⟨hfirst ▸ hf, hlast ▸ hl, checkWall_eq_ok_iff.mpr ?_⟩
  intro hhas'
  obtain ⟨wall, day, hnow, hd, hout⟩ := checkWall_eq_ok_iff.mp hwall (hhas hhas')
  obtain ⟨wall', hnow', hmore⟩ := hw wall hnow
  refine ⟨wall', day, hnow', hd, Bool.eq_false_iff.mpr ?_⟩
  intro hin
  exact Bool.false_ne_true (hout.symm.trans (hmore _ hin))

/-- What a licence without restricting embargo covers, it covers later too. -/
theorem covers_later (hp : l.embargo.disallowsEarlier = false) (h₁ : now.inLeapSecond = false)
    (h₂ : now'.inLeapSecond = false) (h : (now.compare now').isLE)
    (hc : now'.inCalendar = true) :
    l.covers target now = .ok () → l.covers target now' = .ok () := by
  intro hcovers
  refine covers_of_wall hcovers rfl rfl id ?_
  intro wall hw
  obtain ⟨wall', hw'⟩ := exists_wall?_later h₁ h₂ h hc hw
  exact ⟨wall', hw', fun p => isWithheld_of_later_wall hp (wall?_mono h₁ h₂ h hw hw')⟩

/-- What a licence with a restricting embargo covers, it has covered ever since its wall had a
place. -/
theorem covers_earlier
    (hr : l.hasWall = true → l.embargo.disallowsEarlier = true ∧ (l.wall? now).isSome = true)
    (h₁ : now.inLeapSecond = false) (h₂ : now'.inLeapSecond = false)
    (h : (now.compare now').isLE) :
    l.covers target now' = .ok () → l.covers target now = .ok () := by
  intro hcovers
  refine covers_of_wall hcovers rfl rfl id ?_
  intro wall' hw'
  obtain ⟨hdis, hsome⟩ := hr (wall?_eq_some_iff.mp hw').1
  obtain ⟨wall, hw⟩ := Option.isSome_iff_exists.mp hsome
  exact ⟨wall, hw, fun p => isWithheld_of_earlier_wall hdis (wall?_mono h₁ h₂ h hw hw')⟩

end Licence

end Holdings
