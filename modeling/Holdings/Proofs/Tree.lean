import Holdings.Filter
import Holdings.Proofs.Registry
import Holdings.Proofs.Wall
/-!
# Filters in time

A filter asks for the present only at its leaves on holdings and at conditions that are brought
along. In a tree without the latter and without negation, what every leaf keeps the whole tree
keeps: `apply_of_leaves` says this of any two instants, and it needs nothing about time.

With what the wall of a single licence does in time, such a tree moves in one direction as long
as all its walls look the same way.
-/

namespace Holdings

namespace Filter

/-! ## Positive trees and their leaves -/

mutual
/-- Whether a filter is built without negation and without conditions that are brought along. -/
def isPositive : Filter → Bool
  | .and fs => allPositive fs
  | .or fs => allPositive fs
  | .not _ => false
  | .custom _ => false
  | .any | .none | .source _ | .collection _ | .package _ | .issn _ | .doi _ | .isbn _
  | .subject _ | .holdings _ => true
/-- Whether all of some filters are positive. -/
def allPositive : List Filter → Bool
  | [] => true
  | f :: fs => f.isPositive && allPositive fs
end

mutual
/-- The leaves on holdings, from left to right. -/
def holdingsLeaves : Filter → List HoldingsLeaf
  | .holdings leaf => [leaf]
  | .and fs => allHoldingsLeaves fs
  | .or fs => allHoldingsLeaves fs
  | .not f => f.holdingsLeaves
  | .any | .none | .source _ | .collection _ | .package _ | .issn _ | .doi _ | .isbn _
  | .subject _ | .custom _ => []
/-- The leaves on holdings of some filters, from left to right. -/
def allHoldingsLeaves : List Filter → List HoldingsLeaf
  | [] => []
  | f :: fs => f.holdingsLeaves ++ allHoldingsLeaves fs
end

/-- The licences in all registries of a filter. -/
def licences (f : Filter) : List Licence :=
  f.holdingsLeaves.flatMap fun leaf => leaf.registry.allLicences

/-! ## A positive tree keeps what its leaves keep -/

section

variable (r : Record) {now now' : Instant}

mutual
theorem apply_of_leaves : ∀ f : Filter, f.isPositive = true →
    (∀ leaf ∈ f.holdingsLeaves, leaf.covers r now = true → leaf.covers r now' = true) →
    f.apply r now = true → f.apply r now' = true
  | .any, _, _, h | .none, _, _, h | .source _, _, _, h | .collection _, _, _, h
  | .package _, _, _, h | .issn _, _, _, h | .doi _, _, _, h | .isbn _, _, _, h
  | .subject _, _, _, h => h
  | .holdings leaf, _, hl, h => hl leaf List.mem_cons_self h
  | .and fs, hf, hl, h => applyAll_of_leaves fs hf hl h
  | .or fs, hf, hl, h => applyAny_of_leaves fs hf hl h
  | .not _, hf, _, _ => nomatch hf
  | .custom _, hf, _, _ => nomatch hf
theorem applyAll_of_leaves : ∀ fs : List Filter, allPositive fs = true →
    (∀ leaf ∈ allHoldingsLeaves fs, leaf.covers r now = true → leaf.covers r now' = true) →
    applyAll r now fs = true → applyAll r now' fs = true
  | [], _, _, _ => rfl
  | f :: fs, hf, hl, h => by
      simp only [allPositive, applyAll, Bool.and_eq_true, allHoldingsLeaves, List.mem_append]
        at hf hl h ⊢
      exact ⟨apply_of_leaves f hf.1 (fun leaf hm => hl leaf (Or.inl hm)) h.1,
        applyAll_of_leaves fs hf.2 (fun leaf hm => hl leaf (Or.inr hm)) h.2⟩
theorem applyAny_of_leaves : ∀ fs : List Filter, allPositive fs = true →
    (∀ leaf ∈ allHoldingsLeaves fs, leaf.covers r now = true → leaf.covers r now' = true) →
    applyAny r now fs = true → applyAny r now' fs = true
  | [], _, _, h => h
  | f :: fs, hf, hl, h => by
      simp only [allPositive, applyAny, Bool.and_eq_true, Bool.or_eq_true, allHoldingsLeaves,
        List.mem_append] at hf hl h ⊢
      rcases h with h | h
      · exact Or.inl (apply_of_leaves f hf.1 (fun leaf hm => hl leaf (Or.inl hm)) h)
      · exact Or.inr (applyAny_of_leaves fs hf.2 (fun leaf hm => hl leaf (Or.inr hm)) h)
end

end

end Filter

/-! ## Leaves keep what their licences keep -/

/-- Being verbose is not seen in the answer. -/
theorem HoldingsLeaf.covers_eq (h : HoldingsLeaf) (r : Record) (now : Instant) :
    h.covers r now = h.registry.coversAny r.serials r.signature now := by
  unfold covers
  split
  · exact Registry.isOk_check _ _ _ _
  · rfl

theorem HoldingsLeaf.covers_iff {leaf : HoldingsLeaf} {r : Record} {now : Instant} :
    leaf.covers r now = true ↔
      ∃ id ∈ r.serials, ∃ l ∈ leaf.registry.lookup id, l.covers r.signature now = .ok () := by
  rw [leaf.covers_eq, Registry.coversAny_iff]

namespace Filter

theorem apply_of_licences (r : Record) {f : Filter} (hf : f.isPositive = true)
    {now now' : Instant}
    (hl : ∀ l ∈ f.licences, l.covers r.signature now = .ok () →
      l.covers r.signature now' = .ok ())
    (h : f.apply r now = true) : f.apply r now' = true := by
  refine apply_of_leaves r f hf ?_ h
  intro leaf hleaf hcov
  obtain ⟨id, hid, l, hmem, hok⟩ := HoldingsLeaf.covers_iff.mp hcov
  have hin : l ∈ f.licences :=
    List.mem_flatMap.mpr ⟨leaf, hleaf, Registry.mem_allLicences_of_mem_lookup hmem⟩
  exact HoldingsLeaf.covers_iff.mpr ⟨id, hid, l, hmem, hl l hin hok⟩

/-- Between two instants of the calendar, neither in a leap second, a positive tree without
restricting embargoes only gains records. One in which every wall is restricting and has a
place at the earlier instant only loses records. -/
theorem apply_directed {f : Filter} (hf : f.isPositive = true) (r : Record)
    {now now' : Instant} (h₁ : now.inLeapSecond = false) (h₂ : now'.inLeapSecond = false)
    (hc : now'.inCalendar = true) (h : (now.compare now').isLE) :
    ((∀ l ∈ f.licences, l.embargo.disallowsEarlier = false) →
      f.apply r now = true → f.apply r now' = true) ∧
    ((∀ l ∈ f.licences, l.hasWall = true →
        l.embargo.disallowsEarlier = true ∧ (l.wall? now).isSome = true) →
      f.apply r now' = true → f.apply r now = true) := by
  constructor
  · intro hp
    refine apply_of_licences r hf ?_
    intro l hl
    exact Licence.covers_later (hp l hl) h₁ h₂ h hc
  · intro hr
    refine apply_of_licences r hf ?_
    intro l hl
    exact Licence.covers_earlier (hr l hl) h₁ h₂ h

/-- A tree over one licence for one serial, whose wall stands a year back. -/
def yearTree (disallowsEarlier : Bool) : Filter :=
  .and [.any, .or [.none, .holdings {
    sources := []
    registry := .ofList [("1234-5678", ⟨.unset, .unset, ⟨-31536000, disallowsEarlier, .year⟩⟩)]
    verbose := true }]]

/-- A record of the serial from the year 2018. -/
def recordOf2018 : Record :=
  ⟨"", [], [], ["12345678"], [], .ofYear 2018, "", [], [], []⟩

theorem yearTree_directed :
    ((yearTree false).apply recordOf2018 ⟨1590969600, 0⟩ = true ∧
      (yearTree false).apply recordOf2018 ⟨1609459200, 0⟩ = true) ∧
    ((yearTree true).apply recordOf2018 ⟨1577750400, 0⟩ = true ∧
      (yearTree true).apply recordOf2018 ⟨1559347200, 0⟩ = true) := by
  have hp : ∀ b, (yearTree b).isPositive = true := fun _ => rfl
  have ht : ((⟨1590969600, 0⟩ : Instant).compare ⟨1609459200, 0⟩).isLE := by decide
  have ht' : ((⟨1559347200, 0⟩ : Instant).compare ⟨1577750400, 0⟩).isLE := by decide
  have hg := (apply_directed (hp false) recordOf2018 rfl rfl rfl ht).1 (by decide) rfl
  have hl := (apply_directed (hp true) recordOf2018 rfl rfl rfl ht').2 (by decide) rfl
  exact ⟨⟨rfl, hg⟩, rfl, hl⟩

end Filter

end Holdings
