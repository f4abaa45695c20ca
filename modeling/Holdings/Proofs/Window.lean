import Holdings.Proofs.Boundary
/-!
# Windows the wrong way round, and texts without a number

Both questions are about a component that can not be compared and is passed over.

A window the wrong way round refuses every target that has a number in the component in which
its bounds are inverted: such a number is too small for the first signature or too large for
the last. A target without that number is judged by the other components alone, and
`covers_inverted_iff` says which of them are covered. So an inverted window can cover
something, unless it is inverted in the year, which every target has.

A text without digits objects to nothing itself. In the place of an issue it can only open the
window; in the place of a volume it hands the decision on to the issue, which may object.
-/

namespace Holdings

namespace Component

/-- The components that come before one. -/
def enclosing : Component → List Component
  | .year => []
  | .volume => [.year]
  | .issue => [.year, .volume]

/-- The components that come after one. -/
def refining : Component → List Component
  | .year => [.volume, .issue]
  | .volume => [.issue]
  | .issue => []

end Component

namespace Coverage

variable {l : Licence} {c : Component} {target bound bound' : Signature} {now : Instant}

/-! ## What a side depends on -/

theorem side_eq_of_number?_none (h : c.number? target = none) : side target bound c = .eq := by
  simp [side, comparison?, Component.numbers?, h]

theorem side_eq_compare {t b : Int} (hy : c = .year → bound.date.year ≠ 0)
    (ht : c.number? target = some t) (hb : c.number? bound = some b) :
    side target bound c = compare t b := by
  have hc : ¬ (c = .year ∧ bound.date.year = 0) := fun h => hy h.1 h.2
  simp [side, comparison?, Component.numbers?, hc, ht, hb]

theorem side_congr_target {target' : Signature} (h : c.number? target = c.number? target') :
    side target bound c = side target' bound c := by
  simp only [side, comparison?, Component.numbers?, h]

theorem side_congr_bound (h : c.number? bound = c.number? bound') :
    side target bound c = side target bound' c := by
  cases c with
  | year =>
      have hy : bound.date.year = bound'.date.year := Option.some.inj h
      simp only [side, comparison?, Component.numbers?, h, hy]
  | volume | issue => simp [side, comparison?, Component.numbers?, h]

/-! ## Windows the wrong way round -/

/-- Both bounds have a year, they have equal numbers before a component, and in it the first
signature has the larger one. -/
structure InvertedAt (l : Licence) (c : Component) : Prop where
  firstDated : l.first.date.isSet = true
  lastDated : l.last.date.isSet = true
  equalBefore : ∀ d ∈ c.enclosing, ∃ n, d.number? l.first = some n ∧ d.number? l.last = some n
  larger : ∃ m n, c.number? l.first = some m ∧ c.number? l.last = some n ∧ n < m

theorem InvertedAt.side_eq (h : InvertedAt l c) {d : Component} (hd : d ∈ c.enclosing) :
    side target l.first d = side target l.last d := by
  obtain ⟨n, hf, hl⟩ := h.equalBefore d hd
  exact side_congr_bound (hf.trans hl.symm)

/-- No number is at once large enough for the first signature and small enough for the last. -/
theorem InvertedAt.side_eq_lt_or_gt (h : InvertedAt l c) {t : Int}
    (ht : c.number? target = some t) :
    side target l.first c = .lt ∨ side target l.last c = .gt := by
  obtain ⟨m, n, hm, hn, hlt⟩ := h.larger
  have hf : l.first.date.year ≠ 0 := of_decide_eq_true h.firstDated
  have hl : l.last.date.year ≠ 0 := of_decide_eq_true h.lastDated
  rw [side_eq_compare (fun _ => hf) ht hm, side_eq_compare (fun _ => hl) ht hn]
  by_cases hc : t < m
  · exact Or.inl (Std.compare_eq_lt.mpr hc)
  · exact Or.inr (Std.compare_eq_gt.mpr (by omega))

/-- If the bounds agree in a component, the target has to agree with them. -/
theorem then_between_iff {o p q : Ordering} :
    (o.then p ≠ .lt ∧ o.then q ≠ .gt) ↔ o = .eq ∧ p ≠ .lt ∧ q ≠ .gt := by
  cases o <;> simp

theorem not_then_between {a b p q : Ordering} (h : a = .lt ∨ b = .gt) :
    ¬ (a.then p ≠ .lt ∧ b.then q ≠ .gt) := by
  rcases h with rfl | rfl <;> simp

/-- An inverted window covers a target exactly if the target has no number where the bounds are
inverted, is nowhere different before, fits both bounds after it, and has passed the wall. -/
theorem covers_inverted_iff (h : InvertedAt l c) (target : Signature) (now : Instant) :
    l.covers target now = .ok () ↔
      c.number? target = none ∧
      (∀ d ∈ c.enclosing, side target l.first d = .eq) ∧
      (∀ d ∈ c.refining, side target l.first d ≠ .lt ∧ side target l.last d ≠ .gt) ∧
      checkWall l target now = .ok () := by
  rw [covers_eq_ok_iff, ← and_assoc]
  simp only [order]
  cases c with
  | year =>
      have hn : Component.number? target .year ≠ none := Option.some_ne_none _
      have hb : side target l.first .year = .lt ∨ side target l.last .year = .gt :=
        h.side_eq_lt_or_gt rfl
      constructor
      · intro hc
        exact absurd hc.1 (not_then_between hb)
      · intro hc
        exact absurd hc.1 hn
  | volume =>
      have hy : side target l.first .year = side target l.last .year := h.side_eq (by decide)
      rw [← hy, then_between_iff]
      cases ht : Component.number? target .volume with
      | some t =>
          have hb := h.side_eq_lt_or_gt ht
          constructor
          · intro hc
            exact absurd hc.1.2 (not_then_between hb)
          · intro hc
            exact absurd hc.1 (Option.some_ne_none t)
      | none =>
          rw [side_eq_of_number?_none ht, side_eq_of_number?_none ht]
          simp [Component.enclosing, Component.refining, and_assoc]
  | issue =>
      have hy : side target l.first .year = side target l.last .year := h.side_eq (by decide)
      have hv : side target l.first .volume = side target l.last .volume := h.side_eq (by decide)
      rw [← hy, ← hv, then_between_iff, then_between_iff]
      cases ht : Component.number? target .issue with
      | some t =>
          have hb := h.side_eq_lt_or_gt ht
          have hn : ¬ (side target l.first .issue ≠ .lt ∧ side target l.last .issue ≠ .gt) := by
            intro hs
            rcases hb with hb | hb
            · exact hs.1 hb
            · exact hs.2 hb
          constructor
          · intro hc
            exact absurd hc.1.2.2 hn
          · intro hc
            exact absurd hc.1 (Option.some_ne_none t)
      | none =>
          rw [side_eq_of_number?_none ht, side_eq_of_number?_none ht]
          simp [Component.enclosing, Component.refining, and_assoc]

/-- From volume 5 back to volume 3 of one year. -/
def volumesReversed : Licence := ⟨⟨.ofYear 2000, "5", ""⟩, ⟨.ofYear 2000, "3", ""⟩, .absent⟩

theorem volumesReversed_inverted : InvertedAt volumesReversed .volume where
  firstDated := by decide
  lastDated := by decide
  equalBefore := by
    intro d hd
    rw [List.mem_singleton.mp hd]
    exact ⟨2000, rfl, rfl⟩
  larger := ⟨5, 3, by decide, by decide, by decide⟩

theorem volumesReversed_refuses_numbered :
    InvertedAt volumesReversed .volume ∧
      volumesReversed.covers ⟨.ofYear 2000, "4", ""⟩ ⟨1590969600, 0⟩ ≠ .ok () := by
  refine ⟨volumesReversed_inverted, ?_⟩
  intro h
  have hn := ((covers_inverted_iff volumesReversed_inverted _ _).mp h).1
  exact absurd hn (by decide)

/-- What is known by its year only lies in the reversed window. -/
theorem volumesReversed_covers_unnumbered :
    InvertedAt volumesReversed .volume ∧
      volumesReversed.covers (.ofYear 2000) ⟨1590969600, 0⟩ = .ok () :=
  ⟨volumesReversed_inverted, rfl⟩

/-! ## Texts without a number -/

section Replaced

variable {s : String}

theorem order_issue_replaced (hs : ∀ c ∈ s.toList, c.isDigit = false)
    (target bound : Signature) :
    order { target with issue := s } bound =
      (side target bound .year).then (side target bound .volume) := by
  have hi : side { target with issue := s } bound .issue = .eq :=
    side_eq_of_number?_none (ordinal?_eq_none hs)
  have hy : side { target with issue := s } bound .year = side target bound .year :=
    side_congr_target rfl
  have hv : side { target with issue := s } bound .volume = side target bound .volume :=
    side_congr_target rfl
  rw [order, hy, hv, hi, Ordering.then_eq]

theorem order_volume_replaced (hs : ∀ c ∈ s.toList, c.isDigit = false)
    (target bound : Signature) :
    order { target with volume := s } bound =
      (side target bound .year).then (side target bound .issue) := by
  have hv : side { target with volume := s } bound .volume = .eq :=
    side_eq_of_number?_none (ordinal?_eq_none hs)
  have hy : side { target with volume := s } bound .year = side target bound .year :=
    side_congr_target rfl
  have hi : side { target with volume := s } bound .issue = side target bound .issue :=
    side_congr_target rfl
  rw [order, hy, hi, hv, Ordering.eq_then]

theorem then_ne_iff {o p w : Ordering} (hw : w ≠ .eq) :
    o.then p ≠ w ↔ o ≠ w ∧ (o = .eq → p ≠ w) := by
  cases o with
  | lt | gt => simp
  | eq => simp [hw.symm]

/-- What is covered stays so if its issue is replaced by a text without digits. If that is done
to its volume, it stays covered exactly if the issue, which now decides about a bound whose year
does not, lies on the right side of it. -/
theorem covers_replaced (hs : ∀ c ∈ s.toList, c.isDigit = false)
    (h : l.covers target now = .ok ()) :
    l.covers { target with issue := s } now = .ok () ∧
    (l.covers { target with volume := s } now = .ok () ↔
      (side target l.first .year = .eq → side target l.first .issue ≠ .lt) ∧
      (side target l.last .year = .eq → side target l.last .issue ≠ .gt)) := by
  obtain ⟨hf, hl, hw⟩ := covers_eq_ok_iff.mp h
  -- the wall asks for the date alone
  have hi : checkWall l { target with issue := s } now = .ok () := hw
  have hv : checkWall l { target with volume := s } now = .ok () := hw
  simp only [covers_eq_ok_iff, order_issue_replaced hs, order_volume_replaced hs, hi, hv,
    and_true]
  rw [order, ← Ordering.then_assoc, then_ne_iff (by decide)] at hf hl
  refine ⟨⟨hf.1, hl.1⟩, ?_⟩
  rw [then_ne_iff (by decide), then_ne_iff (by decide)]
  have hyf := ((then_ne_iff (by decide)).mp hf.1).1
  have hyl := ((then_ne_iff (by decide)).mp hl.1).1
  simp only [ne_eq, hyf, hyl, not_false_eq_true, true_and]

/-- From issue 3 of volume 5 on. -/
def fromFifthVolume : Licence := ⟨⟨.ofYear 2000, "5", "3"⟩, .unset, .absent⟩

theorem fromFifthVolume_keeps_sixth :
    (∀ c ∈ "n/a".toList, c.isDigit = false) ∧
      fromFifthVolume.covers ⟨.ofYear 2000, "6", "4"⟩ ⟨1590969600, 0⟩ = .ok () ∧
      fromFifthVolume.covers ⟨.ofYear 2000, "n/a", "4"⟩ ⟨1590969600, 0⟩ = .ok () := by
  have hs : ∀ c ∈ "n/a".toList, c.isDigit = false := by simp
  have h : fromFifthVolume.covers ⟨.ofYear 2000, "6", "4"⟩ ⟨1590969600, 0⟩ = .ok () := rfl
  exact ⟨hs, h, (covers_replaced hs h).2.mpr (by decide)⟩

/-- The first issue of volume 6 is covered, but without the number of its volume it looks like
an issue before the third. -/
theorem fromFifthVolume_loses_sixth :
    (∀ c ∈ "Suppl.".toList, c.isDigit = false) ∧
      fromFifthVolume.covers ⟨.ofYear 2000, "6", "1"⟩ ⟨1590969600, 0⟩ = .ok () ∧
      fromFifthVolume.covers ⟨.ofYear 2000, "Suppl.", "1"⟩ ⟨1590969600, 0⟩ =
        .error .issueBefore :=
  ⟨by simp, rfl, rfl⟩

end Replaced

end Coverage

end Holdings
