import Holdings.Proofs.History
import Holdings.Proofs.Identifiers
import Holdings.Tagger
/-!
# Taggers and their history

Institutions get their filters one after the other, and one that comes again takes its new filter in
its old place. So a tagger asks for every institution the filter that it was given last, in the
order in which the institutions came first (`Tagger.tags_built`). Labels are the tags in alphabetical
order; besides the labels nothing in a record changes, and the labels that it had do not count.
-/

namespace Holdings

/-- To filter the pairs of a collection by their values is to filter its keys by what is found under
them. -/
theorem Keyed.map_fst_filter {κ α : Type} [DecidableEq κ] (m : Keyed κ α) (q : α → Bool) :
    (m.toList.filter fun p => q p.2).map Prod.fst =
      m.keys.filter fun k => (m.find? k).any q := by
  have hfound : ∀ p ∈ m.toList, ((m.find? p.1).any q) = q p.2 := by
    intro p hp
    rw [find?, Pairs.find?_eq_some_of_mem m.nodup hp, Option.any_some]
  rw [keys, List.filter_map]
  exact congrArg _ (List.filter_congr fun p hp => (hfound p hp).symm)

namespace Tagger

/-- The tagger that was built by giving institutions their filters one after the other. -/
def built (history : List (String × Filter)) : Tagger :=
  history.foldl (fun t p => t.insert p.1 p.2) empty

/-! ## What a history leaves -/

theorem institutions_built (history : List (String × Filter)) :
    (built history).institutions = (history.map Prod.fst).eraseDups := by
  have hempty : empty.institutions = ([] : List String).eraseDups := rfl
  exact keys_foldl (fun t p => t.filters.keys_put p.1 p.2) hempty history

theorem get?_built (institution : String) (history : List (String × Filter)) :
    (built history).get? institution = Pairs.latest? institution history := by
  have hrun := found_foldl (fun t : Tagger => t.get? institution)
    (fun t p => t.get?_insert p.1 institution p.2) empty history
  exact hrun.trans Option.or_none

theorem tags_built (history : List (String × Filter)) (now : Instant) (r : Record) :
    (built history).tags now r =
      (history.map Prod.fst).eraseDups.filter fun institution =>
        (Pairs.latest? institution history).any fun f => f.apply r now := by
  rw [tags, Keyed.map_fst_filter, ← institutions_built]
  refine List.filter_congr fun institution _ => ?_
  rw [← get?_built]
  rfl

/-! ## Labels -/

theorem nodup_tags (t : Tagger) (now : Instant) (r : Record) : (t.tags now r).Nodup :=
  t.filters.nodup.sublist (List.filter_sublist.map _)

theorem labels_perm (t : Tagger) (now : Instant) (r : Record) :
    (t.labels now r).Perm (t.tags now r) :=
  List.mergeSort_perm _ _

/-- No label stands twice, so sorted labels get strictly greater. -/
theorem pairwise_labels (t : Tagger) (now : Instant) (r : Record) :
    (t.labels now r).Pairwise (· < ·) := by
  have htrans : ∀ a b c : String, decide (a ≤ b) = true → decide (b ≤ c) = true →
      decide (a ≤ c) = true := by
    intro a b c hab hbc
    exact decide_eq_true (String.le_trans (of_decide_eq_true hab) (of_decide_eq_true hbc))
  have htotal : ∀ a b : String, (decide (a ≤ b) || decide (b ≤ a)) = true := by
    intro a b
    rw [Bool.or_eq_true, decide_eq_true_eq, decide_eq_true_eq]
    exact String.le_total a b
  have hsorted : (t.labels now r).Pairwise fun a b => decide (a ≤ b) = true :=
    List.pairwise_mergeSort htrans htotal _
  have hdistinct : (t.labels now r).Pairwise (· ≠ ·) :=
    (t.labels_perm now r).nodup_iff.mpr (t.nodup_tags now r)
  refine (hsorted.and hdistinct).imp fun {a b} h => ?_
  have hle : a ≤ b := of_decide_eq_true h.1
  exact String.not_le.mp fun hge => h.2 (String.le_antisymm hle hge)

/-- Tagging is exact, whatever the history of the tagger. A record gets those institutions whose
latest filter lets it pass, each once and in the order in which they came first. Labelling writes
them in strictly alphabetical order into the labels and leaves all else as it was; the labels that
a record had do not count, so labelling it again changes nothing. -/
theorem tagging_of_history (history : List (String × Filter)) (now : Instant) :
    (∀ r : Record,
      (built history).tags now r =
        ((history.map Prod.fst).eraseDups.filter fun institution =>
          (Pairs.latest? institution history).any fun f => f.apply r now) ∧
      ((built history).tags now r).Nodup) ∧
    ∀ d : RecordDocument,
      (∀ institution, institution ∈ ((built history).label now d).labels ↔
        institution ∈ (built history).tags now d.facts) ∧
      ((built history).label now d).labels.Pairwise (· < ·) ∧
      { (built history).label now d with labels := d.labels } = d ∧
      (∀ labels : List String, ((built history).label now { d with labels }).labels =
        ((built history).label now d).labels) ∧
      (built history).label now ((built history).label now d) = (built history).label now d := by
  refine ⟨fun r => ⟨tags_built history now r, nodup_tags _ now r⟩, fun d => ?_⟩
  refine ⟨fun institution => ?_, pairwise_labels _ now d.facts, rfl, fun labels => rfl, rfl⟩
  exact (labels_perm (built history) now d.facts).mem_iff

end Tagger

end Holdings
