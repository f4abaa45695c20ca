import Holdings.Proofs.Tree
/-!
# Reasons on the side

A registry can be asked in two ways. One stops at the first licence that covers the target, the
other collects the reasons of all licences that do not. The second refuses a target exactly if all
licences of the identifiers do, and its reasons are theirs, each in its place
(`Registry.check_eq_error_iff`). So the two ways agree, and a leaf on holdings decides the same
whether it is told to be verbose or not, wherever in a tree it stands (`Filter.apply_withVerbose`).
-/

namespace Holdings

namespace Registry

variable {r : Registry} {ids : List String} {target : Signature} {now : Instant}

theorem check_eq_ok_iff :
    r.check ids target now = .ok () ↔ r.coversAny ids target now = true := by
  rw [← isOk_iff, isOk_check]

theorem checkAll_eq_error_iff {ls : List Licence} {vs : List Violation} :
    checkAll target now ls = .error vs ↔
      ls.map (fun l => l.covers target now) = vs.map .error := by
  induction ls generalizing vs with
  | nil => simp [checkAll, eq_comm]
  | cons l ls ih =>
      rw [checkAll, List.map_cons]
      cases hl : l.covers target now with
      | ok u => cases vs <;> simp
      | error v =>
          cases vs with
          | nil => cases checkAll target now ls <;> simp [Except.mapError]
          | cons v' vs =>
              rw [List.map_cons, List.cons.injEq, Except.error.injEq, ← ih]
              cases checkAll target now ls <;> simp [Except.mapError]

/-- The reasons are those of all licences of the identifiers: no licence is left out, and an
identifier that comes again brings its licences again. -/
theorem check_eq_error_iff {vs : List Violation} :
    r.check ids target now = .error vs ↔
      (ids.flatMap r.lookup).map (fun l => l.covers target now) = vs.map .error :=
  checkAll_eq_error_iff

end Registry

namespace Filter

/-! ## Verbose leaves -/

mutual
/-- A filter with its leaves on holdings made verbose, if that is asked for. -/
def withVerbose (verbose : Bool) : Filter → Filter
  | .holdings leaf => .holdings { leaf with verbose := leaf.verbose || verbose }
  | .and fs => .and (allWithVerbose verbose fs)
  | .or fs => .or (allWithVerbose verbose fs)
  | .not f => .not (f.withVerbose verbose)
  | .any => .any
  | .none => .none
  | .source ids => .source ids
  | .collection names => .collection names
  | .package names => .package names
  | .issn ids => .issn ids
  | .doi ids => .doi ids
  | .isbn ids => .isbn ids
  | .subject names => .subject names
  | .custom p => .custom p
/-- Filters with their leaves on holdings made verbose, if that is asked for. -/
def allWithVerbose (verbose : Bool) : List Filter → List Filter
  | [] => []
  | f :: fs => f.withVerbose verbose :: allWithVerbose verbose fs
end

section

variable (verbose : Bool) (r : Record) (now : Instant)

mutual
/-- Whether leaves are verbose does not change what they decide. -/
theorem apply_withVerbose : ∀ f : Filter, (f.withVerbose verbose).apply r now = f.apply r now
  | .any | .none | .source _ | .collection _ | .package _ | .issn _ | .doi _ | .isbn _
  | .subject _ | .custom _ => rfl
  | .holdings leaf => by rw [withVerbose, apply, apply, HoldingsLeaf.covers_eq, leaf.covers_eq]
  | .and fs => applyAll_withVerbose fs
  | .or fs => applyAny_withVerbose fs
  | .not f => by rw [withVerbose, apply, apply, apply_withVerbose f]
theorem applyAll_withVerbose : ∀ fs : List Filter,
    applyAll r now (allWithVerbose verbose fs) = applyAll r now fs
  | [] => rfl
  | f :: fs => by
      rw [allWithVerbose, applyAll, applyAll, apply_withVerbose f, applyAll_withVerbose fs]
theorem applyAny_withVerbose : ∀ fs : List Filter,
    applyAny r now (allWithVerbose verbose fs) = applyAny r now fs
  | [] => rfl
  | f :: fs => by
      rw [allWithVerbose, applyAny, applyAny, apply_withVerbose f, applyAny_withVerbose fs]
end

end

/-- Asking for reasons comes to the same answer. A registry that is asked for them lets a target
pass exactly if some licence covers it, and otherwise has the reasons of all licences of the
identifiers, identifier by identifier. So filters that differ in the flags of their leaves only,
which are those that become one filter when all leaves are made verbose, decide the same of every
record at every instant. -/
theorem reasons_on_the_side :
    (∀ (r : Registry) (ids : List String) (target : Signature) (now : Instant),
      (r.check ids target now = .ok () ↔ r.coversAny ids target now = true) ∧
      ∀ vs, r.check ids target now = .error vs ↔
        (ids.flatMap r.lookup).map (fun l => l.covers target now) = vs.map .error) ∧
    ∀ f g : Filter, f.withVerbose true = g.withVerbose true →
      ∀ r now, f.apply r now = g.apply r now := by
  refine ⟨fun r ids target now => ⟨Registry.check_eq_ok_iff, fun vs =>
    Registry.check_eq_error_iff⟩, fun f g h r now => ?_⟩
  rw [← apply_withVerbose true r now f, h, apply_withVerbose]

/-- A leaf on one serial from some year on. -/
def leafFrom (year : Int) (verbose : Bool) : Filter :=
  .holdings ⟨[], .ofList [("1234-5678", ⟨.ofYear year, .unset, .absent⟩)], verbose⟩

/-- Three leaves, each with its flag, under both connectives and a negation. -/
def flaggedTree (first second third : Bool) : Filter :=
  .and [.or [.none, leafFrom 2000 first], .not (.and [leafFrom 2010 second, leafFrom 2020 third])]

theorem reasons_on_the_side_flaggedTree :
    (flaggedTree true false true).withVerbose true =
        (flaggedTree false true false).withVerbose true ∧
      (flaggedTree true false true).apply recordOf2018 ⟨0, 0⟩ =
        (flaggedTree false true false).apply recordOf2018 ⟨0, 0⟩ ∧
      (flaggedTree false true false).apply recordOf2018 ⟨0, 0⟩ = true :=
  ⟨rfl, reasons_on_the_side.2 _ _ rfl _ _, rfl⟩

end Filter

end Holdings
