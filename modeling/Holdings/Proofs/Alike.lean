import Holdings.Proofs.Tree
import Holdings.Tagger
/-!
# Records that are alike

What the built-in kinds of filters ask of a record comes down to a few facts in normal form: one
source, one object identifier and one signature, and otherwise sets of names and of keys. Records
that agree on these facts are alike, however their identifiers are spelled, ordered and repeated,
and whether an edition is printed or electronic. No tree of built-in kinds tells them apart, so
they get the same tags (`Tagger.tags_of_alike`).

It all rests on where a spelling is lost: filters on identifiers bring those of the record to their
key before they compare, and a registry does the same when it is asked.
-/

namespace Holdings

/-! ## Lists as sets -/

/-- Two lists with the same members, in whatever order and however often. -/
def SameMembers (as bs : List String) : Prop := ∀ x, x ∈ as ↔ x ∈ bs

instance (as bs : List String) : Decidable (SameMembers as bs) :=
  decidable_of_iff ((∀ a ∈ as, a ∈ bs) ∧ ∀ b ∈ bs, b ∈ as)
    ⟨fun h x => ⟨h.1 x, h.2 x⟩, fun h => ⟨fun x => (h x).mp, fun x => (h x).mpr⟩⟩

namespace SameMembers

variable {as bs : List String}

/-- Whether some member passes a test does not depend on order and repetition. -/
theorem any_eq (h : SameMembers as bs) (p : String → Bool) : as.any p = bs.any p := by
  rw [Bool.eq_iff_iff, List.any_eq_true, List.any_eq_true]
  exact exists_congr fun x => and_congr_left fun _ => h x

/-- A test that looks only at the key of an identifier does not depend on its spelling. -/
theorem any_eq_of_key {key : String → String} (h : SameMembers (as.map key) (bs.map key))
    (p : String → Bool) : (as.any fun a => p (key a)) = bs.any fun b => p (key b) := by
  have hp := h.any_eq p
  rwa [List.any_map, List.any_map] at hp

end SameMembers

/-! ## The facts that count -/

/-- Two records that agree on the facts that the built-in kinds of filters ask for. -/
structure Record.Alike (r r' : Record) : Prop where
  sourceId : r.sourceId = r'.sourceId
  doi : r.doi = r'.doi
  signature : r.signature = r'.signature
  collections : SameMembers r.collections r'.collections
  packages : SameMembers r.packages r'.packages
  subjects : SameMembers r.subjects r'.subjects
  serials : SameMembers (r.serials.map Issn.normalize) (r'.serials.map Issn.normalize)
  books : SameMembers (r.books.map Isbn.normalize) (r'.books.map Isbn.normalize)

/-- A registry is asked by the keys of the serials: whether it collects reasons on the way or not,
and in which order it goes through the licences, it has one answer for records that are alike. -/
theorem HoldingsLeaf.covers_of_alike {r r' : Record} (h : r.Alike r') (leaf : HoldingsLeaf)
    (now : Instant) : leaf.covers r now = leaf.covers r' now := by
  have hkeys := h.serials.any_eq_of_key fun key =>
    ((leaf.registry.licences.find? key).getD []).any fun l =>
      (l.covers r.signature now).isOk
  rw [leaf.covers_eq, leaf.covers_eq, ← h.signature]
  exact hkeys

namespace Filter

theorem containsAny_of_same {present present' : List String} (h : SameMembers present present')
    (wanted : List String) : containsAny wanted present = containsAny wanted present' :=
  h.any_eq _

/-! ## Trees of built-in kinds -/

mutual
/-- Whether no part of a filter is of a kind that is brought along. -/
def isBuiltin : Filter → Bool
  | .and fs => allBuiltin fs
  | .or fs => allBuiltin fs
  | .not f => f.isBuiltin
  | .custom _ => false
  | .any | .none | .source _ | .collection _ | .package _ | .issn _ | .doi _ | .isbn _
  | .subject _ | .holdings _ => true
/-- Whether no part of some filters is of a kind that is brought along. -/
def allBuiltin : List Filter → Bool
  | [] => true
  | f :: fs => f.isBuiltin && allBuiltin fs
end

section

variable {r r' : Record}

mutual
/-- A tree of built-in kinds decides the same of records that are alike. The induction carries the
whole equation and not one direction of it, since a negation turns directions around. -/
theorem apply_of_alike (h : r.Alike r') (now : Instant) :
    ∀ f : Filter, f.isBuiltin = true → f.apply r now = f.apply r' now
  | .any, _ | .none, _ => rfl
  | .source ids, _ => by rw [apply, apply, h.sourceId]
  | .collection names, _ => containsAny_of_same h.collections names
  | .package names, _ => containsAny_of_same h.packages names
  | .subject names, _ => containsAny_of_same h.subjects names
  | .issn ids, _ => h.serials.any_eq_of_key ids.contains
  | .isbn ids, _ => h.books.any_eq_of_key ids.contains
  | .doi ids, _ => by rw [apply, apply, h.doi]
  | .holdings leaf, _ => leaf.covers_of_alike h now
  | .and fs, hb => applyAll_of_alike h now fs hb
  | .or fs, hb => applyAny_of_alike h now fs hb
  | .not f, hb => congrArg (!·) (apply_of_alike h now f hb)
  | .custom _, hb => nomatch hb
theorem applyAll_of_alike (h : r.Alike r') (now : Instant) :
    ∀ fs : List Filter, allBuiltin fs = true → applyAll r now fs = applyAll r' now fs
  | [], _ => rfl
  | f :: fs, hb => by
      rw [allBuiltin, Bool.and_eq_true] at hb
      rw [applyAll, applyAll, apply_of_alike h now f hb.1, applyAll_of_alike h now fs hb.2]
theorem applyAny_of_alike (h : r.Alike r') (now : Instant) :
    ∀ fs : List Filter, allBuiltin fs = true → applyAny r now fs = applyAny r' now fs
  | [], _ => rfl
  | f :: fs, hb => by
      rw [allBuiltin, Bool.and_eq_true] at hb
      rw [applyAny, applyAny, apply_of_alike h now f hb.1, applyAny_of_alike h now fs hb.2]
end

end

end Filter

/-! ## Tags -/

namespace Tagger

/-- Records that are alike get the same tags in the same order, at every instant and from every
tagger of built-in kinds. So do documents, and they get the same labels: besides the facts in normal
form neither the identifier of a document nor the labels that it has nor its unknown fields
count. -/
theorem tags_of_alike (t : Tagger) (ht : ∀ p ∈ t.filters.toList, p.2.isBuiltin = true)
    (now : Instant) :
    (∀ r r' : Record, r.Alike r' → t.tags now r = t.tags now r') ∧
    ∀ d d' : RecordDocument, d.facts.Alike d'.facts →
      (t.label now d).labels = (t.label now d').labels := by
  have htags : ∀ r r' : Record, r.Alike r' → t.tags now r = t.tags now r' := by
    intro r r' h
    refine congrArg (List.map Prod.fst) (List.filter_congr fun p hp => ?_)
    exact Filter.apply_of_alike h now p.2 (ht p hp)
  refine ⟨htags, fun d d' h => ?_⟩
  have hlabels : t.labels now d.facts = t.labels now d'.facts := by
    rw [labels, labels, htags _ _ h]
  exact hlabels

/-- An institution that takes what its holdings cover, but of one serial only a book or what is in
no backfile. -/
def covered : Tagger :=
  .insert .empty "A" (.and [.holdings {
      sources := []
      registry := .ofList [("1234-5678", ⟨.ofYear 2000, .unset, ⟨0, false, .day⟩⟩)]
      verbose := true },
    .or [.not (.issn ["0006-2499"]), .isbn ["080442957X"], .not (.collection ["Backfile"])]])

/-- A document of the year 2001 with its serials in print and its books in compact form. -/
def printed : RecordDocument :=
  { RecordDocument.empty with
    sourceId := "49", collections := ["Backfile", "Open Access"], issns := ["0006-2499", "12345678"]
    isbns := ["080442957X"], date := "2001", volume := "5" }

/-- The same in other words: electronic editions, hyphens and blanks, a list in another order and
with a repetition, a date with a placeholder, and with an identifier, a label and an unknown
field. -/
def electronic : RecordDocument :=
  { RecordDocument.empty with
    sourceId := "49", id := "ai-49", collections := ["Open Access", "Backfile", "Open Access"]
    issns := ["1234-5678"], eissns := ["00062499", " 1234 5678"]
    eisbns := ["0-8044-2957-x", "080442957X"], date := "2001-xx-xx", volume := " 5 "
    labels := ["B"], extra := [("rft.atitle", .string "On holdings")] }

theorem tags_of_alike_electronic :
    (∀ p ∈ covered.filters.toList, p.2.isBuiltin = true) ∧
      printed.facts.Alike electronic.facts ∧
      covered.tags ⟨1590969600, 0⟩ electronic.facts = ["A"] ∧
      (covered.label ⟨1590969600, 0⟩ electronic).labels =
        (covered.label ⟨1590969600, 0⟩ printed).labels := by
  have hbuiltin : ∀ p ∈ covered.filters.toList, p.2.isBuiltin = true := by decide
  have halike : printed.facts.Alike electronic.facts :=
    { sourceId := rfl
      doi := rfl
      signature := by decide
      collections := by decide
      packages := by decide
      subjects := by decide
      serials := by decide
      books := by decide }
  have h := covered.tags_of_alike hbuiltin ⟨1590969600, 0⟩
  have hprinted : covered.tags ⟨1590969600, 0⟩ printed.facts = ["A"] := by decide
  exact ⟨hbuiltin, halike, (h.1 _ _ halike).symm.trans hprinted, (h.2 _ _ halike).symm⟩

end Tagger

end Holdings
