import Holdings.Coverage
/-!
# The bounds of a window, read lexicographically

The check of a bound returns early in each of its three comparisons. Here it is read in one
piece: the components that can be compared are listed, and the first of them in which target
and bound differ decides. What can not be compared is left out of the list, so it weighs as
much as a component that is equal on both sides.

`covers_eq_reference` says that nothing else is asked of the two bounds, and that a licence
without bounds can only be refused by its wall. `covers_eq_ok_iff` is the form in which the
other modules use it.
-/

namespace Holdings

/-- What signatures are compared by. -/
inductive Component where
  | year
  | volume
  | issue
deriving DecidableEq

namespace Component

/-- All components, the weightiest first. -/
def inOrder : List Component := [.year, .volume, .issue]

/-- The number that a signature has in a component; a date that is unset has the year 0. -/
def number? (s : Signature) : Component → Option Int
  | .year => some s.date.year
  | .volume => s.volumeOrdinal?
  | .issue => s.issueOrdinal?

/-- The numbers of target and bound in a component, if it can be compared: a year needs only a
bound that has one, volumes and issues need a number on both sides. -/
def numbers? (target bound : Signature) (c : Component) : Option (Int × Int) :=
  if c = .year ∧ bound.date.year = 0 then none
  else (number? target c).bind fun t => (number? bound c).map fun b => (t, b)

end Component

namespace Violation

/-- The target lies before the first signature in a component. -/
def before : Component → Violation
  | .year => .yearBefore
  | .volume => .volumeBefore
  | .issue => .issueBefore

/-- The target lies after the last signature in a component. -/
def after : Component → Violation
  | .year => .yearAfter
  | .volume => .volumeAfter
  | .issue => .issueAfter

end Violation

/-- The licence without its bounds. -/
def Licence.unbounded (l : Licence) : Licence := { l with first := .unset, last := .unset }

namespace Coverage

variable {target bound : Signature}

/-! ## The reference -/

/-- The components that can be compared, with the numbers of target and bound. -/
def comparables (target bound : Signature) (cs : List Component) :
    List (Component × Int × Int) :=
  cs.filterMap fun c => (c.numbers? target bound).map fun p => (c, p)

/-- The first component in which target and bound differ, and the side of the target in it. -/
def firstDifference? (target bound : Signature) (cs : List Component) :
    Option (Component × Ordering) :=
  (comparables target bound cs).findSome? fun (c, t, b) =>
    if t = b then none else some (c, compare t b)

/-- The objection of the two bounds: the target is smaller where it first differs from the
first signature, or else it is larger where it first differs from the last one. -/
def objection? (l : Licence) (target : Signature) : Option Violation :=
  match firstDifference? target l.first Component.inOrder,
      firstDifference? target l.last Component.inOrder with
  | some (c, .lt), _ => some (.before c)
  | _, some (c, .gt) => some (.after c)
  | _, _ => none

/-! ## A cascade of comparisons stops at the first difference -/

/-- What a first difference means at a bound. -/
def verdict (wrong : Ordering) (v : Component → Violation) :
    Option (Component × Ordering) → Except Violation Unit
  | some (c, o) => if o = wrong then .error (v c) else .ok ()
  | none => .ok ()

/-- How target and bound compare in a component, if they can be compared. -/
def comparison? (target bound : Signature) (c : Component) : Option Ordering :=
  (c.numbers? target bound).map fun p => compare p.1 p.2

theorem compareYears_eq (target bound : Signature) :
    compareYears target bound = comparison? target bound .year := by
  by_cases h : bound.date.year = 0
  · simp [compareYears, PartialDate.isSet, comparison?, Component.numbers?, h]
  · simp [compareYears, PartialDate.isSet, comparison?, Component.numbers?, Component.number?,
      PartialDate.compareYears, h]

theorem compareOrdinals_eq (c : Component) (hc : c ≠ .year) (target bound : Signature) :
    compareOrdinals (c.number? target) (c.number? bound) = comparison? target bound c := by
  simp only [comparison?, Component.numbers?, hc, false_and, if_false]
  cases c.number? target with
  | none => rfl
  | some t =>
      cases c.number? bound with
      | none => rfl
      | some b => rfl

/-- The side of the bound on which the target lies in a component; what can not be compared
counts as equal. -/
def side (target bound : Signature) (c : Component) : Ordering :=
  (comparison? target bound c).getD .eq

theorem firstDifference?_cons (target bound : Signature) (c : Component) (cs : List Component) :
    firstDifference? target bound (c :: cs) =
      if side target bound c = .eq then firstDifference? target bound cs
      else some (c, side target bound c) := by
  cases hn : c.numbers? target bound with
  | none => simp [side, comparison?, firstDifference?, comparables, hn]
  | some p =>
      obtain ⟨t, b⟩ := p
      by_cases h : t = b
      · simp [side, comparison?, firstDifference?, comparables, hn, h]
      · have hne : compare t b ≠ .eq := fun he => h (Std.compare_eq_iff_eq.mp he)
        simp [side, comparison?, firstDifference?, comparables, hn, h, hne]

theorem refine_comparison? (wrong : Ordering) (v : Violation) (next : Except Violation Unit)
    (target bound : Signature) (c : Component) :
    refine wrong v next (comparison? target bound c) =
      if side target bound c = .eq then next
      else if side target bound c = wrong then .error v else .ok () := by
  unfold side
  rcases comparison? target bound c with _ | _ | _ | _ <;> rfl

theorem foldr_refine (wrong : Ordering) (v : Component → Violation) (cs : List Component) :
    cs.foldr (fun c next => refine wrong (v c) next (comparison? target bound c)) (.ok ()) =
      verdict wrong v (firstDifference? target bound cs) := by
  induction cs with
  | nil => rfl
  | cons c cs ih =>
      rw [List.foldr_cons, ih, refine_comparison?, firstDifference?_cons]
      split <;> rfl

theorem checkBound_eq (wrong : Ordering) (v : Component → Violation) (target bound : Signature) :
    checkBound wrong (v .year) (v .volume) (v .issue) bound target =
      verdict wrong v (firstDifference? target bound Component.inOrder) := by
  have hv : compareOrdinals target.volumeOrdinal? bound.volumeOrdinal? =
      comparison? target bound .volume := compareOrdinals_eq .volume (by decide) target bound
  have hi : compareOrdinals target.issueOrdinal? bound.issueOrdinal? =
      comparison? target bound .issue := compareOrdinals_eq .issue (by decide) target bound
  rw [← foldr_refine]
  unfold checkBound
  rw [compareYears_eq, hv, hi]
  rfl

theorem checkFirst_eq (first target : Signature) :
    checkFirst first target =
      verdict .lt .before (firstDifference? target first Component.inOrder) :=
  checkBound_eq .lt .before target first

theorem checkLast_eq (last target : Signature) :
    checkLast last target =
      verdict .gt .after (firstDifference? target last Component.inOrder) :=
  checkBound_eq .gt .after target last

/-! ## The side of a bound -/

/-- The side of the bound on which the target lies: the first one that is not `eq`. -/
def order (target bound : Signature) : Ordering :=
  (side target bound .year).then ((side target bound .volume).then (side target bound .issue))

theorem foldr_side (target bound : Signature) (cs : List Component) :
    cs.foldr (fun c o => (side target bound c).then o) .eq =
      ((firstDifference? target bound cs).map Prod.snd).getD .eq := by
  induction cs with
  | nil => rfl
  | cons c cs ih =>
      rw [List.foldr_cons, ih, firstDifference?_cons]
      cases h : side target bound c <;> rfl

theorem order_eq (target bound : Signature) :
    order target bound =
      ((firstDifference? target bound Component.inOrder).map Prod.snd).getD .eq := by
  rw [← foldr_side]
  simp [order, Component.inOrder]

theorem verdict_eq_ok_iff {wrong : Ordering} (hw : wrong ≠ .eq) (v : Component → Violation)
    (d : Option (Component × Ordering)) :
    verdict wrong v d = .ok () ↔ (d.map Prod.snd).getD .eq ≠ wrong := by
  cases d with
  | none => exact ⟨fun _ => hw.symm, fun _ => rfl⟩
  | some p =>
      obtain ⟨c, o⟩ := p
      by_cases h : o = wrong <;> simp [verdict, h]

theorem checkFirst_eq_ok_iff {first target : Signature} :
    checkFirst first target = .ok () ↔ order target first ≠ .lt := by
  rw [checkFirst_eq, order_eq]
  exact verdict_eq_ok_iff (by decide) _ _

theorem checkLast_eq_ok_iff {last target : Signature} :
    checkLast last target = .ok () ↔ order target last ≠ .gt := by
  rw [checkLast_eq, order_eq]
  exact verdict_eq_ok_iff (by decide) _ _

/-- A licence covers what lies on no wrong side and is not withheld by the wall. -/
theorem covers_eq_ok_iff {l : Licence} {now : Instant} :
    l.covers target now = .ok () ↔
      order target l.first ≠ .lt ∧ order target l.last ≠ .gt ∧ checkWall l target now = .ok () := by
  rw [← checkFirst_eq_ok_iff, ← checkLast_eq_ok_iff]
  simp only [Licence.covers, bind, Except.bind]
  cases checkFirst l.first target with
  | error v => simp
  | ok u =>
      cases checkLast l.last target with
      | error v => simp
      | ok u' => simp

/-! ## Without bounds only the wall is left -/

theorem order_unset (target : Signature) : order target .unset = .eq := by
  have h : ordinal? "" = none := by decide
  simp [order, side, comparison?, Component.numbers?, Component.number?, Signature.unset,
    Signature.volumeOrdinal?, Signature.issueOrdinal?, PartialDate.unset, h]

theorem covers_unbounded (l : Licence) (target : Signature) (now : Instant) :
    l.unbounded.covers target now = checkWall l target now := by
  have hf : checkFirst .unset target = .ok () := by
    rw [checkFirst_eq_ok_iff, order_unset]; decide
  have hl : checkLast .unset target = .ok () := by
    rw [checkLast_eq_ok_iff, order_unset]; decide
  simp only [Licence.covers, Licence.unbounded, hf, hl, bind, Except.bind]
  rfl

theorem checkWall_cases (l : Licence) (target : Signature) (now : Instant) :
    checkWall l target now = .ok () ∨ checkWall l target now = .error .movingWall := by
  unfold checkWall
  split
  · split
    · split
      · exact Or.inr rfl
      · exact Or.inl rfl
    · exact Or.inr rfl
  · exact Or.inl rfl

/-- A licence answers with the objection of its bounds, and without one like the licence that
has no bounds; that one covers the target or holds it back at its wall. -/
theorem covers_eq_reference (l : Licence) (target : Signature) (now : Instant) :
    (l.covers target now = match objection? l target with
      | some v => .error v
      | none => l.unbounded.covers target now) ∧
    (l.unbounded.covers target now = .ok () ∨
      l.unbounded.covers target now = .error .movingWall) := by
  rw [covers_unbounded]
  refine ⟨?_, checkWall_cases l target now⟩
  simp only [Licence.covers, checkFirst_eq, checkLast_eq, bind, Except.bind, objection?]
  rcases hf : firstDifference? target l.first Component.inOrder with _ | ⟨c, _ | _ | _⟩ <;>
    rcases hl : firstDifference? target l.last Component.inOrder with _ | ⟨d, _ | _ | _⟩ <;>
    rfl

end Coverage

end Holdings
