import Holdings.Proofs.Wall
import Holdings.Proofs.Window
/-!
# Windows are intervals

A target of which all is known has a key: its year and the numbers of its volume and issue, where
the first difference decides. A bound that skips no component is the front part of such a key. It
is compared with as much of a key as it has itself (`order_eq_compare`), and keys that are cut off
behind stand in the order in which they stood. So what a bound lets through on its side has no
gaps, and neither have the days that a wall lets through, whichever side of it is withheld. Hence
a licence that covers two targets covers all between them (`covers_between`).
-/

namespace Holdings

/-! ## Keys -/

namespace Signature

variable {s t : Signature}

/-- A signature of which all is known that can be compared: the first of its days, and the numbers
of its volume and issue. -/
structure Placed (s : Signature) where
  day : Calendar.Date
  volume : Int
  issue : Int
  firstDay?_eq : s.date.firstDay? = some day
  volumeOrdinal?_eq : s.volumeOrdinal? = some volume
  issueOrdinal?_eq : s.issueOrdinal? = some issue

/-- What is compared, the weightiest first. -/
def Placed.key (p : s.Placed) : List Int := [s.date.year, p.volume, p.issue]

/-- The key and the day of a signature are not past those of another. -/
structure Placed.NotPast (p : s.Placed) (q : t.Placed) : Prop where
  key : (compare p.key q.key).isLE
  day : p.day.number ≤ q.day.number

/-- A bound without a year has no volume either, and without a volume no issue. -/
structure IsNested (s : Signature) : Prop where
  volume : s.date.isSet = false → s.volumeOrdinal? = none
  issue : s.volumeOrdinal? = none → s.issueOrdinal? = none

/-- What a bound has of a key. -/
def edge (s : Signature) : List Int :=
  if s.date.isSet then s.date.year :: (s.volumeOrdinal?.toList ++ s.issueOrdinal?.toList) else []

end Signature

/-- Keys that are cut off behind keep their order. -/
theorem isLE_compare_take {k k' : List Int} (h : (compare k k').isLE) (n : Nat) :
    (compare (k.take n) (k'.take n)).isLE := by
  induction n generalizing k k' with
  | zero => rfl
  | succ n ih =>
      cases k with
      | nil => cases k' <;> rfl
      | cons a k =>
          cases k' with
          | nil => cases h
          | cons b k' =>
              rw [List.compare_cons_cons, Ordering.isLE_then_iff_or] at h
              rw [List.take_succ_cons, List.take_succ_cons, List.compare_cons_cons,
                Ordering.isLE_then_iff_or]
              exact h.imp_right fun hk => ⟨hk.1, ih hk.2⟩

namespace Coverage

open Signature

variable {target target' bound : Signature}

/-! ## Bounds -/

theorem side_eq_of_bound_none {c : Component} (h : c.number? bound = none) :
    side target bound c = .eq := by
  cases hn : c.number? target <;> simp [side, comparison?, Component.numbers?, h, hn]

theorem side_year_of_unset (h : bound.date.isSet = false) : side target bound .year = .eq := by
  have hy : bound.date.year = 0 := by simpa [PartialDate.isSet] using h
  simp [side, comparison?, Component.numbers?, hy]

/-- A bound that skips nothing is compared with the front of a key. -/
theorem order_eq_compare (hb : bound.IsNested) (p : target.Placed) :
    order target bound = compare (p.key.take bound.edge.length) bound.edge := by
  cases hset : bound.date.isSet with
  | false =>
      have hv : side target bound .volume = .eq := side_eq_of_bound_none (hb.volume hset)
      have hi : side target bound .issue = .eq :=
        side_eq_of_bound_none (hb.issue (hb.volume hset))
      rw [order, side_year_of_unset hset, hv, hi]
      simp [edge, hset]
  | true =>
      have hyear : side target bound .year = compare target.date.year bound.date.year :=
        side_eq_compare (fun _ => of_decide_eq_true hset) rfl rfl
      cases hv : bound.volumeOrdinal? with
      | none =>
          have hi : bound.issueOrdinal? = none := hb.issue hv
          have hvolumes : side target bound .volume = .eq := side_eq_of_bound_none hv
          have hissues : side target bound .issue = .eq := side_eq_of_bound_none hi
          rw [order, hyear, hvolumes, hissues]
          simp [Placed.key, edge, hset, hv, hi, List.compare_cons_cons]
      | some v =>
          have hvolumes : side target bound .volume = compare p.volume v :=
            side_eq_compare (fun h => absurd h (by decide)) p.volumeOrdinal?_eq hv
          cases hi : bound.issueOrdinal? with
          | none =>
              have hissues : side target bound .issue = .eq := side_eq_of_bound_none hi
              rw [order, hyear, hvolumes, hissues]
              simp [Placed.key, edge, hset, hv, hi, List.compare_cons_cons]
          | some i =>
              have hissues : side target bound .issue = compare p.issue i :=
                side_eq_compare (fun h => absurd h (by decide)) p.issueOrdinal?_eq hi
              rw [order, hyear, hvolumes, hissues]
              simp [Placed.key, edge, hset, hv, hi, List.compare_cons_cons]

/-- A bound does not reject a target as too early if it lets an earlier one through. -/
theorem order_ne_lt (hb : bound.IsNested) {p : target.Placed} {q : target'.Placed}
    (h : p.NotPast q) (hp : order target bound ≠ .lt) : order target' bound ≠ .lt := by
  rw [order_eq_compare hb p] at hp
  rw [order_eq_compare hb q]
  have hcut := isLE_compare_take h.key bound.edge.length
  have hge := Std.TransCmp.isGE_trans (Std.OrientedCmp.isGE_of_isLE hcut)
    (Ordering.isGE_iff_ne_lt.mpr hp)
  exact Ordering.isGE_iff_ne_lt.mp hge

/-- A bound does not reject a target as too late if it lets a later one through. -/
theorem order_ne_gt (hb : bound.IsNested) {p : target.Placed} {q : target'.Placed}
    (h : p.NotPast q) (hq : order target' bound ≠ .gt) : order target bound ≠ .gt := by
  rw [order_eq_compare hb q] at hq
  rw [order_eq_compare hb p]
  have hcut := isLE_compare_take h.key bound.edge.length
  have hle := Std.TransCmp.isLE_trans hcut (Ordering.isLE_iff_ne_gt.mpr hq)
  exact Ordering.isLE_iff_ne_gt.mp hle

/-! ## Walls -/

section Wall

variable {e : Embargo} {a b c w : Instant}

theorem isLE_compare_startOf {d d' : Calendar.Date} (h : d.number ≤ d'.number) :
    ((Instant.startOf d).compare (Instant.startOf d')).isLE := by
  rw [Instant.isLE_compare_iff]
  simp only [Instant.startOf]
  omega

/-- Where access ends at the wall, what comes later is withheld too. -/
theorem isWithheld_later (he : e.disallowsEarlier = false) (h : (a.compare b).isLE)
    (ha : isWithheld e a w = true) : isWithheld e b w = true := by
  have hle := isLE_compareAt e.grain h
  simp only [isWithheld, he, Bool.false_eq_true, if_false] at ha ⊢
  by_cases hg : e.grain = .day
  · rw [if_pos hg, decide_eq_true_eq] at ha ⊢
    exact Std.TransCmp.gt_of_isGE_of_gt (Std.OrientedCmp.isGE_of_isLE hle) ha
  · rw [if_neg hg, decide_eq_true_eq] at ha ⊢
    intro hb
    exact ha (Std.TransCmp.lt_of_isLE_of_lt hle hb)

/-- Where access begins at the wall, what comes earlier is withheld too. -/
theorem isWithheld_earlier (he : e.disallowsEarlier = true) (h : (a.compare b).isLE)
    (hb : isWithheld e b w = true) : isWithheld e a w = true := by
  simp only [isWithheld, he, if_true, decide_eq_true_eq] at hb ⊢
  exact Std.TransCmp.lt_of_isLE_of_lt (isLE_compareAt e.grain h) hb

/-- What lies between two publications that are not withheld is not withheld. -/
theorem isWithheld_between (hab : (a.compare b).isLE) (hbc : (b.compare c).isLE)
    (ha : isWithheld e a w = false) (hc : isWithheld e c w = false) :
    isWithheld e b w = false := by
  rw [Bool.eq_false_iff]
  intro hb
  cases he : e.disallowsEarlier with
  | false => exact Bool.false_ne_true (hc.symm.trans (isWithheld_later he hbc hb))
  | true => exact Bool.false_ne_true (ha.symm.trans (isWithheld_earlier he hab hb))

end Wall

end Coverage

namespace Licence

open Coverage

variable {l : Licence} {t₁ t₂ t₃ : Signature} {now : Instant}

theorem checkWall_between {p₁ : t₁.Placed} {p₂ : t₂.Placed} {p₃ : t₃.Placed}
    (h₁₂ : p₁.NotPast p₂) (h₂₃ : p₂.NotPast p₃) (h₁ : checkWall l t₁ now = .ok ())
    (h₃ : checkWall l t₃ now = .ok ()) : checkWall l t₂ now = .ok () := by
  rw [checkWall_eq_ok_iff] at h₁ h₃ ⊢
  intro hhas
  obtain ⟨wall, day₁, hwall, hday₁, hout₁⟩ := h₁ hhas
  obtain ⟨wall', day₃, hwall', hday₃, hout₃⟩ := h₃ hhas
  obtain rfl : wall = wall' := Option.some.inj (hwall.symm.trans hwall')
  obtain rfl : p₁.day = day₁ := Option.some.inj (p₁.firstDay?_eq.symm.trans hday₁)
  obtain rfl : p₃.day = day₃ := Option.some.inj (p₃.firstDay?_eq.symm.trans hday₃)
  exact ⟨wall, p₂.day, hwall, p₂.firstDay?_eq, isWithheld_between
    (isLE_compare_startOf h₁₂.day) (isLE_compare_startOf h₂₃.day) hout₁ hout₃⟩

/-- If the bounds of a licence skip no component, it covers what lies between two targets that it
covers. -/
theorem covers_between (hfirst : l.first.IsNested) (hlast : l.last.IsNested) {p₁ : t₁.Placed}
    {p₂ : t₂.Placed} {p₃ : t₃.Placed} (h₁₂ : p₁.NotPast p₂) (h₂₃ : p₂.NotPast p₃)
    (h₁ : l.covers t₁ now = .ok ()) (h₃ : l.covers t₃ now = .ok ()) :
    l.covers t₂ now = .ok () := by
  obtain ⟨hf₁, -, hw₁⟩ := covers_eq_ok_iff.mp h₁
  obtain ⟨-, hl₃, hw₃⟩ := covers_eq_ok_iff.mp h₃
  have hf₂ : order t₂ l.first ≠ .lt := order_ne_lt hfirst h₁₂ hf₁
  have hl₂ : order t₂ l.last ≠ .gt := order_ne_gt hlast h₂₃ hl₃
  exact covers_eq_ok_iff.mpr ⟨hf₂, hl₂, checkWall_between h₁₂ h₂₃ hw₁ hw₃⟩

/-- From issue 3 of volume 5 to volume 15, without the last year. -/
def fiveToFifteen : Licence :=
  ⟨⟨.ofYear 2000, "5", "3"⟩, ⟨.ofYear 2010, "15", ""⟩, ⟨-31536000, false, .year⟩⟩

/-- Between two issues at its edges the window covers one whose own number is larger than both. -/
theorem fiveToFifteen_between :
    fiveToFifteen.first.IsNested ∧ fiveToFifteen.last.IsNested ∧
      fiveToFifteen.covers ⟨.ofYear 2000, "5", "3"⟩ ⟨1324684800, 0⟩ = .ok () ∧
      fiveToFifteen.covers ⟨⟨2004, some 7, none⟩, "9", "12"⟩ ⟨1324684800, 0⟩ = .ok () ∧
      fiveToFifteen.covers ⟨⟨2009, some 12, some 31⟩, "15", "6"⟩ ⟨1324684800, 0⟩ = .ok () := by
  have hfirst : fiveToFifteen.first.IsNested := ⟨by decide, by decide⟩
  have hlast : fiveToFifteen.last.IsNested := ⟨by decide, by decide⟩
  let p₁ : Signature.Placed ⟨.ofYear 2000, "5", "3"⟩ :=
    ⟨⟨2000, 1, 1, rfl⟩, 5, 3, rfl, by decide, by decide⟩
  let p₂ : Signature.Placed ⟨⟨2004, some 7, none⟩, "9", "12"⟩ :=
    ⟨⟨2004, 7, 1, rfl⟩, 9, 12, rfl, by decide, by decide⟩
  let p₃ : Signature.Placed ⟨⟨2009, some 12, some 31⟩, "15", "6"⟩ :=
    ⟨⟨2009, 12, 31, rfl⟩, 15, 6, rfl, by decide, by decide⟩
  have h₁₂ : p₁.NotPast p₂ := ⟨by decide, by decide⟩
  have h₂₃ : p₂.NotPast p₃ := ⟨by decide, by decide⟩
  have h₁ : fiveToFifteen.covers ⟨.ofYear 2000, "5", "3"⟩ ⟨1324684800, 0⟩ = .ok () := rfl
  have h₃ : fiveToFifteen.covers ⟨⟨2009, some 12, some 31⟩, "15", "6"⟩ ⟨1324684800, 0⟩ = .ok () :=
    rfl
  exact ⟨hfirst, hlast, h₁, covers_between hfirst hlast h₁₂ h₂₃ h₁ h₃, h₃⟩

end Licence

end Holdings
