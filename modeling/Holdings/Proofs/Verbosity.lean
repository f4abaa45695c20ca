import Holdings.Proofs.Rendering
/-!
# What becomes of verbosity in writing

A leaf on holdings is verbose if its node says so, and otherwise if the configuration says so; a
node may also say that its leaf is not. But what is written of a leaf that is not verbose says
nothing about it, so under a verbose configuration such a leaf comes back verbose. That is all that
is lost: what is read back is the same tree over the same sources, and it is the same filter unless
the configuration is verbose and some leaf is not (`Constructors.read_back_fixed`). What is read
back is always written and read as itself.
-/

namespace Holdings

open Json (Value)
open Decoding

namespace Filter

/-! ## Leaves that keep their verbosity -/

/-- Whether the leaves keep their verbosity under a configuration that is verbose or not: there is
none that would have to say that it is not. -/
def KeepsVerbosity (verbose : Bool) (leaves : List HoldingsLeaf) : Prop :=
  ∀ leaf ∈ leaves, leaf.verbose = false → verbose = false

theorem keepsVerbosity_append {verbose : Bool} {leaves leaves' : List HoldingsLeaf} :
    KeepsVerbosity verbose (leaves ++ leaves') ↔
      KeepsVerbosity verbose leaves ∧ KeepsVerbosity verbose leaves' :=
  List.forall_mem_append

/-- A leaf made verbose is written in another way, unless it was verbose. -/
theorem leafSetting_eq_iff (verbose : Bool) (leaf : HoldingsLeaf) :
    leafSetting { leaf with verbose := leaf.verbose || verbose } = leafSetting leaf ↔
      KeepsVerbosity verbose [leaf] := by
  obtain ⟨sources, registry, own⟩ := leaf
  rw [KeepsVerbosity, List.forall_mem_singleton]
  cases own with
  | true => exact ⟨fun _ h => (nomatch h), fun _ => rfl⟩
  | false =>
      cases verbose with
      | false => exact ⟨fun _ _ => rfl, fun _ => rfl⟩
      | true =>
          refine ⟨fun h => ?_, fun h => nomatch h rfl⟩
          -- The member that says so is the one that is missing on the right.
          match sources, h with
          | [], h => cases h
          | [_], h => cases h
          | _ :: _ :: _, h => cases h

mutual
/-- Making leaves verbose shows in writing, unless all leaves keep their verbosity. -/
theorem toJson_withVerbose_iff (verbose : Bool) : ∀ f : Filter,
    (f.withVerbose verbose).toJson = f.toJson ↔ KeepsVerbosity verbose f.holdingsLeaves
  | .any | .none | .source _ | .collection _ | .package _ | .issn _ | .doi _ | .isbn _
  | .subject _ | .custom _ => ⟨fun _ => List.forall_mem_nil _, fun _ => rfl⟩
  | .holdings leaf => by
      rw [withVerbose, toJson, toJson, holdingsLeaves, ← leafSetting_eq_iff]
      simp
  | .and fs => by
      rw [withVerbose, toJson, toJson, holdingsLeaves, ← allToJson_withVerbose_iff]
      simp
  | .or fs => by
      rw [withVerbose, toJson, toJson, holdingsLeaves, ← allToJson_withVerbose_iff]
      simp
  | .not f => by
      rw [withVerbose, toJson, toJson, holdingsLeaves, ← toJson_withVerbose_iff]
      simp
theorem allToJson_withVerbose_iff (verbose : Bool) : ∀ fs : List Filter,
    allToJson (allWithVerbose verbose fs) = allToJson fs ↔
      KeepsVerbosity verbose (allHoldingsLeaves fs)
  | [] => ⟨fun _ => List.forall_mem_nil _, fun _ => rfl⟩
  | f :: fs => by
      rw [allWithVerbose, allToJson, allToJson, List.cons.injEq, toJson_withVerbose_iff,
        allToJson_withVerbose_iff, allHoldingsLeaves, keepsVerbosity_append]
end

mutual
/-- A filter whose leaves keep their verbosity stays as it is. -/
theorem withVerbose_eq_self {verbose : Bool} : ∀ f : Filter,
    KeepsVerbosity verbose f.holdingsLeaves → f.withVerbose verbose = f
  | .any, _ | .none, _ | .source _, _ | .collection _, _ | .package _, _ | .issn _, _ | .doi _, _
  | .isbn _, _ | .subject _, _ | .custom _, _ => rfl
  | .holdings ⟨sources, registry, own⟩, h => by
      have hown := h _ List.mem_cons_self
      rw [withVerbose]
      cases own with
      | true => rfl
      | false => rw [hown rfl]; rfl
  | .and fs, h => congrArg Filter.and (allWithVerbose_eq_self fs h)
  | .or fs, h => congrArg Filter.or (allWithVerbose_eq_self fs h)
  | .not f, h => congrArg Filter.not (withVerbose_eq_self f h)
theorem allWithVerbose_eq_self {verbose : Bool} : ∀ fs : List Filter,
    KeepsVerbosity verbose (allHoldingsLeaves fs) → allWithVerbose verbose fs = fs
  | [], _ => rfl
  | f :: fs, h => by
      obtain ⟨hf, hfs⟩ := keepsVerbosity_append.mp h
      rw [allWithVerbose, withVerbose_eq_self f hf, allWithVerbose_eq_self fs hfs]
end

mutual
/-- The leaves stay in their places over the same sources and licences. -/
theorem holdingsLeaves_withVerbose (verbose : Bool) : ∀ f : Filter,
    (f.withVerbose verbose).holdingsLeaves =
      f.holdingsLeaves.map fun leaf => { leaf with verbose := leaf.verbose || verbose }
  | .any | .none | .source _ | .collection _ | .package _ | .issn _ | .doi _ | .isbn _
  | .subject _ | .custom _ => rfl
  | .holdings _ => rfl
  | .and fs => allHoldingsLeaves_withVerbose verbose fs
  | .or fs => allHoldingsLeaves_withVerbose verbose fs
  | .not f => holdingsLeaves_withVerbose verbose f
theorem allHoldingsLeaves_withVerbose (verbose : Bool) : ∀ fs : List Filter,
    allHoldingsLeaves (allWithVerbose verbose fs) =
      (allHoldingsLeaves fs).map fun leaf => { leaf with verbose := leaf.verbose || verbose }
  | [] => rfl
  | f :: fs => by
      rw [allWithVerbose, allHoldingsLeaves, allHoldingsLeaves, List.map_append,
        holdingsLeaves_withVerbose, allHoldingsLeaves_withVerbose]
end

/-- Leaves that were made verbose keep their verbosity. -/
theorem keepsVerbosity_withVerbose (verbose : Bool) (f : Filter) :
    KeepsVerbosity verbose (f.withVerbose verbose).holdingsLeaves := by
  rw [holdingsLeaves_withVerbose]
  intro leaf hleaf hquiet
  obtain ⟨old, -, rfl⟩ := List.mem_map.mp hleaf
  exact (Bool.or_eq_false_iff.mp hquiet).2

end Filter

/-! ## Filters that were read -/

namespace Constructors

/-- What was read is written and read back as the same tree over the same sources, both where it
was read and over all that was loaded then; only, every leaf is verbose if the configuration is.
So it is read back as itself if all its leaves keep their verbosity, and it is written in the same
way then and only then. What was read back is always read back as itself. -/
theorem read_back_fixed {s : Surroundings} {loaded : Cache} {node : Value} {f : Filter}
    (h : standard.outcome s loaded node = .ok f) :
    ∃ g, standard.outcome s loaded f.toJson = .ok g ∧
      standard.outcome s (standard.loadedBy s loaded [node]) f.toJson = .ok g ∧
      g = f.withVerbose s.config.verbose ∧
      g.holdingsLeaves = f.holdingsLeaves.map
        (fun leaf => { leaf with verbose := leaf.verbose || s.config.verbose }) ∧
      (Filter.KeepsVerbosity s.config.verbose f.holdingsLeaves → g = f) ∧
      (g.toJson = f.toJson ↔ Filter.KeepsVerbosity s.config.verbose f.holdingsLeaves) ∧
      standard.outcome s loaded g.toJson = .ok g := by
  have hread : runFrom (standard.decode s node) loaded =
      (.ok f, standard.loadedBy s loaded [node]) := Prod.ext h rfl
  have hback := runFrom_decode_toJson hread
  have hagain := (Steady.decode isBuiltin_standard f.toJson).repeats _ _ _ _ hback
    (Cache.Within.refl _)
  have htwice := runFrom_decode_toJson hback
  rw [Filter.withVerbose_eq_self _ (f.keepsVerbosity_withVerbose _)] at htwice
  exact ⟨f.withVerbose s.config.verbose, congrArg Prod.fst hback, congrArg Prod.fst hagain, rfl,
    f.holdingsLeaves_withVerbose _, f.withVerbose_eq_self, f.toJson_withVerbose_iff _,
    congrArg Prod.fst htwice⟩

/-- A node with a leaf on holdings in one file that says whether it is verbose. -/
def toldVerbose (verbose : Bool) : Value :=
  .object [("holdings", .object [("file", .string "a.tsv"), ("verbose", .bool verbose)])]

/-- One leaf that is told to be verbose and one that is told not to be. -/
def toldBoth : Value :=
  .object [("and", .array [toldVerbose true, .object [("not", toldVerbose false)]])]

theorem read_back_fixed_toldBoth :
    ∃ f g, standard.outcome Tagger.emptyFile .empty toldBoth = .ok f ∧
      standard.outcome Tagger.emptyFile .empty f.toJson = .ok g ∧
      g.holdingsLeaves.map (·.verbose) = [true, true] ∧ g.toJson ≠ f.toJson ∧
      standard.outcome Tagger.emptyFile .empty g.toJson = .ok g := by
  let quiet : HoldingsLeaf := ⟨["a.tsv"], .empty, false⟩
  have hread : standard.outcome Tagger.emptyFile .empty toldBoth =
      .ok (.and [.holdings { quiet with verbose := true }, .not (.holdings quiet)]) := by cbv
  obtain ⟨g, hback, -, -, hleaves, -, hwritten, htwice⟩ := read_back_fixed hread
  refine ⟨_, g, hread, hback, ?_, fun hsame => ?_, htwice⟩
  · rw [hleaves]
    rfl
  · have hkeeps := hwritten.mp hsame quiet (List.mem_cons_of_mem _ List.mem_cons_self) rfl
    cases hkeeps

/-- Under a configuration that is verbose, a leaf that is told not to be comes back verbose. -/
theorem told_quiet_comes_back_verbose :
    standard.outcome Tagger.emptyFile .empty (toldVerbose false) =
        .ok (.holdings ⟨["a.tsv"], .empty, false⟩) ∧
      standard.outcome Tagger.emptyFile .empty
          (Filter.holdings ⟨["a.tsv"], .empty, false⟩).toJson =
        .ok (.holdings ⟨["a.tsv"], .empty, true⟩) ∧
      (Filter.holdings ⟨["a.tsv"], .empty, true⟩).toJson ≠
        (Filter.holdings ⟨["a.tsv"], .empty, false⟩).toJson := by
  refine ⟨by cbv, by cbv, fun h => ?_⟩
  cases h

end Constructors

end Holdings
