import Holdings.Proofs.Embargo
import Holdings.Proofs.Grain
/-!
# Longer embargoes

Of two embargoes that differ in their length only, the longer one has its wall earlier. If its wall
has a place in the calendar, so has that of the shorter one, which stands between it and the
present. Hence what a longer embargo grants of the time before its wall a shorter one grants as
well, and of the time after it a longer one grants what a shorter one does, as long as its wall has
a place. An embargo of no length has no wall and grants all that lies between the bounds.

`covers_longer` says so of the notations of a column: no number of units that can be read turns the
order of two walls round, neither as a span of seconds nor on its way back from the present.
-/

namespace Holdings

namespace Instant

/-- Whoever goes back starts from the same place: a leap second is left for the second after it. -/
theorem exists_shift_back (t : Instant) :
    ∃ s n, (∀ d < 0, t.shift d = ⟨s + d, n⟩) ∧ s ≤ t.seconds + 1 ∧ n ≤ t.nanos := by
  cases h : t.inLeapSecond with
  | false =>
      refine ⟨t.seconds, t.nanos, ?_, by omega, Nat.le_refl _⟩
      intro d _
      exact shift_eq h d
  | true =>
      refine ⟨t.seconds + 1, t.nanos - second, ?_, Int.le_refl _, Nat.sub_le _ _⟩
      intro d hd
      have hforward : ¬ 0 < d := by omega
      rw [shift, if_pos h, if_neg hforward, if_pos hd]

/-- Going back further leads to an earlier place. -/
theorem shift_back_mono (t : Instant) {d d' : Int} (h : d ≤ d') (hd' : d' < 0) :
    ((t.shift d).compare (t.shift d')).isLE := by
  obtain ⟨s, n, hshift, -, -⟩ := exists_shift_back t
  rw [hshift d (by omega), hshift d' hd', isLE_compare_iff]
  simp only
  omega

/-- Going back by a second or more does not lead past the start. -/
theorem shift_back_le (t : Instant) {d : Int} (hd : d < 0) : ((t.shift d).compare t).isLE := by
  obtain ⟨s, n, hshift, hs, hn⟩ := exists_shift_back t
  rw [hshift d hd, isLE_compare_iff]
  simp only
  omega

end Instant

namespace Licence

open Coverage Embargo

variable {l : Licence} {target : Signature} {now wall : Instant} {e e' : Embargo}

/-- The licence with another embargo. -/
def withEmbargo (l : Licence) (e : Embargo) : Licence := { l with embargo := e }

theorem hasWall_withEmbargo : (l.withEmbargo e).hasWall = true ↔ e.seconds < 0 :=
  decide_eq_true_iff

theorem wall?_withEmbargo :
    (l.withEmbargo e).wall? now = some wall ↔
      e.seconds < 0 ∧ (now.shift e.seconds).inCalendar = true ∧ now.shift e.seconds = wall := by
  rw [wall?_eq_some_iff, hasWall_withEmbargo, Instant.plus?_eq_some_iff]
  rfl

/-- The wall of a longer embargo stands earlier. -/
theorem isLE_wall? {wall' : Instant} (h : e'.seconds ≤ e.seconds)
    (hw' : (l.withEmbargo e').wall? now = some wall')
    (hw : (l.withEmbargo e).wall? now = some wall) : (wall'.compare wall).isLE := by
  obtain ⟨hneg, -, rfl⟩ := wall?_withEmbargo.mp hw
  obtain ⟨-, -, rfl⟩ := wall?_withEmbargo.mp hw'
  exact now.shift_back_mono h hneg

/-- If the wall of a longer embargo has a place, so has that of a shorter one. -/
theorem exists_wall?_shorter {wall' : Instant} (hnow : now.inCalendar = true)
    (h : e'.seconds ≤ e.seconds) (hneg : e.seconds < 0)
    (hw' : (l.withEmbargo e').wall? now = some wall') :
    ∃ wall, (l.withEmbargo e).wall? now = some wall := by
  obtain ⟨-, hin, -⟩ := wall?_withEmbargo.mp hw'
  -- it stands between the wall of the longer embargo and the present
  have hbetween := Instant.inCalendar_of_between hin hnow (now.shift_back_mono h hneg)
    (now.shift_back_le hneg)
  exact ⟨_, wall?_withEmbargo.mpr ⟨hneg, hbetween, rfl⟩⟩

theorem covers_withEmbargo_iff :
    (l.withEmbargo e).covers target now = .ok () ↔
      l.Frames target ∧ checkWall (l.withEmbargo e) target now = .ok () := by
  rw [covers_eq_ok_iff, ← and_assoc, ← checkFirst_eq_ok_iff, ← checkLast_eq_ok_iff]
  rfl

/-- Without a wall all that lies between the bounds is covered. -/
theorem covers_withEmbargo_of_frames (h : l.Frames target) (he : 0 ≤ e.seconds) :
    (l.withEmbargo e).covers target now = .ok () := by
  refine covers_withEmbargo_iff.mpr ⟨h, checkWall_eq_ok_iff.mpr ?_⟩
  intro hhas
  exact absurd (hasWall_withEmbargo.mp hhas) (by omega)

variable {g : Grain} {n n' : Int}

/-- Where access ends at the wall, a shorter embargo grants more. -/
theorem covers_shorter (hnow : now.inCalendar = true) (h : n' ≤ n) (hneg : n < 0)
    (hc : (l.withEmbargo ⟨n', false, g⟩).covers target now = .ok ()) :
    (l.withEmbargo ⟨n, false, g⟩).covers target now = .ok () := by
  have hneg' : n' < 0 := by omega
  have hhas' : (l.withEmbargo ⟨n', false, g⟩).hasWall = true := hasWall_withEmbargo.mpr hneg'
  refine covers_of_wall hc rfl rfl (fun _ => hhas') ?_
  intro wall' hw'
  obtain ⟨wall, hw⟩ := exists_wall?_shorter (e := ⟨n, false, g⟩) hnow h hneg hw'
  refine ⟨wall, hw, ?_⟩
  intro p hin
  exact isWithheld_of_later_wall rfl (isLE_wall? h hw' hw) hin

/-- Where access begins at the wall, a longer embargo grants more if its wall has a place. -/
theorem covers_longer_beginning {wall' : Instant} (h : n' ≤ n) (hneg : n < 0)
    (hw' : (l.withEmbargo ⟨n', true, g⟩).wall? now = some wall')
    (hc : (l.withEmbargo ⟨n, true, g⟩).covers target now = .ok ()) :
    (l.withEmbargo ⟨n', true, g⟩).covers target now = .ok () := by
  have hhas : (l.withEmbargo ⟨n, true, g⟩).hasWall = true := hasWall_withEmbargo.mpr hneg
  refine covers_of_wall hc rfl rfl (fun _ => hhas) ?_
  intro wall hw
  refine ⟨wall', hw', ?_⟩
  intro p hin
  exact isWithheld_of_earlier_wall rfl (isLE_wall? h hw' hw) hin

/-! ## Lengths in units -/

variable {digits₁ digits₂ : List Char} {n₁ n₂ : Nat}

/-- More units are a longer span back, and one unit is a span back already. -/
theorem seconds_of_units (g : Grain) (h₁ : 1 ≤ n₁) (h₁₂ : n₁ ≤ n₂) :
    -(n₂ * g.days) * 86400 ≤ -(n₁ * g.days) * 86400 ∧ -(n₁ * g.days) * 86400 < 0 := by
  cases g <;> simp only [Grain.days] <;> omega

/-- No units of any kind are an embargo without a wall. -/
theorem readKbart_no_units (g : Grain) (r : Bool) :
    readKbart (unitText (sideLetter r) ['0'] g) = .ok ⟨0, r, g⟩ := by
  have hzero : Text.IsNumeral ['0'] 0 := Text.isNumeral_toDigits 0
  refine (readKbart_unitText hzero).mpr ⟨?_, ?_⟩
  · rw [Int.natCast_zero, Int.zero_mul]
    decide
  · rw [Int.natCast_zero, Int.zero_mul]
    rfl

/-- Under any licence whose embargo is written in a column, with no fewer units of the same kind in
the one text than in the other. Where access ends at the wall, what is covered with more units is
covered with fewer and with none. Where it begins there, what is covered with fewer units is covered
with more, as long as their wall has a place. -/
theorem covers_longer (hnow : now.inCalendar = true) (hd₁ : Text.IsNumeral digits₁ n₁)
    (hd₂ : Text.IsNumeral digits₂ n₂) (h₁ : 1 ≤ n₁) (h₁₂ : n₁ ≤ n₂) :
    (∀ e₁ e₂, readKbart (unitText 'P' digits₁ g) = .ok e₁ →
      readKbart (unitText 'P' digits₂ g) = .ok e₂ →
      (l.withEmbargo e₂).covers target now = .ok () →
      (l.withEmbargo e₁).covers target now = .ok () ∧
        ∃ e₀, readKbart (unitText 'P' ['0'] g) = .ok e₀ ∧
          (l.withEmbargo e₀).covers target now = .ok ()) ∧
    ∀ e₁ e₂, readKbart (unitText 'R' digits₁ g) = .ok e₁ →
      readKbart (unitText 'R' digits₂ g) = .ok e₂ →
      ((l.withEmbargo e₂).wall? now).isSome = true →
      (l.withEmbargo e₁).covers target now = .ok () →
      (l.withEmbargo e₂).covers target now = .ok () := by
  obtain ⟨horder, hneg⟩ := seconds_of_units g h₁ h₁₂
  constructor
  · intro e₁ e₂ he₁ he₂ hc
    obtain ⟨-, rfl⟩ := (readKbart_unitText (r := false) hd₁).mp he₁
    obtain ⟨-, rfl⟩ := (readKbart_unitText (r := false) hd₂).mp he₂
    have hframes : l.Frames target := (covers_withEmbargo_iff.mp hc).1
    exact ⟨covers_shorter hnow horder hneg hc, _, readKbart_no_units g false,
      covers_withEmbargo_of_frames hframes (Int.le_refl 0)⟩
  · intro e₁ e₂ he₁ he₂ hsome hc
    obtain ⟨-, rfl⟩ := (readKbart_unitText (r := true) hd₁).mp he₁
    obtain ⟨-, rfl⟩ := (readKbart_unitText (r := true) hd₂).mp he₂
    obtain ⟨wall', hw'⟩ := Option.isSome_iff_exists.mp hsome
    exact covers_longer_beginning horder hneg hw' hc

/-- Everything since 2000. -/
def sinceTwoThousand : Licence := ⟨⟨.ofYear 2000, "", ""⟩, .unset, .absent⟩

/-- In the middle of 2020, what two years without access leave of 2015 is left by twelve months and
by none, and what access to the last twelve months grants of 2019 is granted by 24. -/
theorem sinceTwoThousand_longer :
    Text.IsNumeral ['1', '2'] 12 ∧ Text.IsNumeral ['2', '4'] 24 ∧
      readKbart (unitText 'P' ['1', '2'] .month) = .ok ⟨-31104000, false, .month⟩ ∧
      readKbart (unitText 'P' ['2', '4'] .month) = .ok ⟨-62208000, false, .month⟩ ∧
      readKbart (unitText 'R' ['1', '2'] .month) = .ok ⟨-31104000, true, .month⟩ ∧
      readKbart (unitText 'R' ['2', '4'] .month) = .ok ⟨-62208000, true, .month⟩ ∧
      (sinceTwoThousand.withEmbargo ⟨-31104000, false, .month⟩).covers ⟨.ofYear 2015, "", ""⟩
        ⟨1590969600, 0⟩ = .ok () ∧
      (∃ e, readKbart (unitText 'P' ['0'] .month) = .ok e ∧
        (sinceTwoThousand.withEmbargo e).covers ⟨.ofYear 2015, "", ""⟩ ⟨1590969600, 0⟩ = .ok ()) ∧
      (sinceTwoThousand.withEmbargo ⟨-62208000, true, .month⟩).covers
        ⟨⟨2019, some 9, none⟩, "", ""⟩ ⟨1590969600, 0⟩ = .ok () := by
  have hd₁ : Text.IsNumeral ['1', '2'] 12 := Text.natural?_eq_some_iff.mp rfl
  have hd₂ : Text.IsNumeral ['2', '4'] 24 := Text.natural?_eq_some_iff.mp rfl
  have hread₁ (r : Bool) : readKbart (unitText (sideLetter r) ['1', '2'] .month) =
      .ok ⟨-31104000, r, .month⟩ := (readKbart_unitText hd₁).mpr ⟨by decide, rfl⟩
  have hread₂ (r : Bool) : readKbart (unitText (sideLetter r) ['2', '4'] .month) =
      .ok ⟨-62208000, r, .month⟩ := (readKbart_unitText hd₂).mpr ⟨by decide, rfl⟩
  have hnow : Instant.inCalendar ⟨1590969600, 0⟩ = true := rfl
  have hc₂ : (sinceTwoThousand.withEmbargo ⟨-62208000, false, .month⟩).covers
      ⟨.ofYear 2015, "", ""⟩ ⟨1590969600, 0⟩ = .ok () := rfl
  have hc₁ : (sinceTwoThousand.withEmbargo ⟨-31104000, true, .month⟩).covers
      ⟨⟨2019, some 9, none⟩, "", ""⟩ ⟨1590969600, 0⟩ = .ok () := rfl
  obtain ⟨hfewer, hnone⟩ := (covers_longer hnow hd₁ hd₂ (by decide) (by decide)).1 _ _
    (hread₁ false) (hread₂ false) hc₂
  have hmore := (covers_longer hnow hd₁ hd₂ (by decide) (by decide)).2 _ _
    (hread₁ true) (hread₂ true) rfl hc₁
  exact ⟨hd₁, hd₂, hread₁ false, hread₂ false, hread₁ true, hread₂ true, hfewer, hnone, hmore⟩

end Licence

end Holdings
