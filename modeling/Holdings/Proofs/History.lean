import Holdings.Proofs.Merging
/-!
# Registries and their history

A registry can be built in many ways: licences are inserted one by one or many at a time, collected
into a new registry, and registries are merged. None of this shows in the end but the history, the
list of all insertions in which a merged registry takes part with its own history. Every registry is
the one that its history is collected into (`Registry.Origin.registry_eq`), since merging a registry
adds its insertions (`Registry.merge_ofList`), and what a registry answers can be read off its
history (`Registry.answers_of_history`).
-/

namespace Holdings

/-! ## Keys in order of arrival -/

section

variable {κ : Type} [DecidableEq κ]

theorem eraseDups_concat (ks : List κ) (k : κ) :
    (ks ++ [k]).eraseDups = if k ∈ ks then ks.eraseDups else ks.eraseDups ++ [k] := by
  rw [List.eraseDups_append, List.removeAll]
  by_cases h : k ∈ ks
  · simp [h]
  · simp [h, List.eraseDups_cons]

/-- If every step of a run keeps the keys that are there and puts a new one last, then the keys
stand in the order in which they came first. -/
theorem keys_foldl {σ β : Type} {keys : σ → List κ} {step : σ → β → σ} {key : β → κ}
    (hstep : ∀ s b, keys (step s b) =
      if key b ∈ keys s then keys s else keys s ++ [key b])
    {s : σ} {seen : List κ} (hs : keys s = seen.eraseDups) (bs : List β) :
    keys (bs.foldl step s) = (seen ++ bs.map key).eraseDups := by
  induction bs generalizing s seen with
  | nil =>
      rw [List.map_nil, List.append_nil]
      exact hs
  | cons b bs ih =>
      have hnext : keys (step s b) = (seen ++ [key b]).eraseDups := by
        rw [hstep, eraseDups_concat, hs]
        simp only [List.mem_eraseDups]
      rw [List.foldl_cons, ih hnext, List.map_cons, List.append_assoc]
      rfl

/-- The value that a key was given last. -/
def Pairs.latest? {α : Type} (k : κ) (ps : List (κ × α)) : Option α :=
  (ps.reverse.find? fun p => p.1 = k).map Prod.snd

/-- If every step of a run gives a value to a key, then in the end the last of its values is found
under a key, or else what was found there before. -/
theorem found_foldl {σ α : Type} (found : σ → Option α) {step : σ → κ × α → σ} {k : κ}
    (hstep : ∀ s p, found (step s p) = if p.1 = k then some p.2 else found s)
    (s : σ) (ps : List (κ × α)) :
    found (ps.foldl step s) = (Pairs.latest? k ps).or (found s) := by
  induction ps generalizing s with
  | nil => rfl
  | cons p ps ih =>
      rw [List.foldl_cons, ih, hstep, Pairs.latest?, Pairs.latest?, List.reverse_cons,
        List.find?_append, Option.map_or, Option.or_assoc]
      by_cases hp : p.1 = k
      · simp [hp]
      · simp [hp]

end

namespace Registry

/-! ## What one insertion changes -/

theorem identifiers_insert (r : Registry) (id : String) (l : Licence) :
    (r.insert id l).identifiers =
      if Issn.normalize id ∈ r.identifiers then r.identifiers
      else r.identifiers ++ [Issn.normalize id] :=
  Keyed.keys_alter _ _ _

theorem lookup_insert (r : Registry) (key id : String) (l : Licence) :
    (r.insert key l).lookup id =
      if Issn.normalize key = Issn.normalize id then r.lookup id ++ [l] else r.lookup id :=
  r.lookup_append _ id [l]

/-- Licences that are added under a key are added to the number of all. -/
theorem length_flatMap_alter (key : String) (ls : List Licence)
    (ps : List (String × List Licence)) :
    ((Pairs.alter key (fun present => present.getD [] ++ ls) ps).flatMap Prod.snd).length =
      (ps.flatMap Prod.snd).length + ls.length := by
  induction ps with
  | nil => simp [Pairs.alter]
  | cons p ps ih =>
      obtain ⟨key', ms⟩ := p
      rw [Pairs.alter]
      split
      · simp only [Option.getD_some, List.flatMap_cons, List.length_append]
        omega
      · simp only [List.flatMap_cons, List.length_append, ih]
        omega

theorem licenceCount_insert (r : Registry) (id : String) (l : Licence) :
    (r.insert id l).licenceCount = r.licenceCount + 1 :=
  length_flatMap_alter (Issn.normalize id) [l] r.toList

theorem contains_iff {r : Registry} {id : String} :
    r.contains id = true ↔ r.lookup id ≠ [] := by
  rw [contains, Bool.not_eq_true', List.isEmpty_eq_false_iff]

/-! ## What many insertions change -/

theorem extend_append (r : Registry) (xs ys : List (String × Licence)) :
    r.extend (xs ++ ys) = (r.extend xs).extend ys :=
  List.foldl_append

theorem merge_extend (r s : Registry) (ls : List (String × Licence)) :
    r.merge (s.extend ls) = (r.merge s).extend ls := by
  induction ls generalizing s with
  | nil => rfl
  | cons p ls ih =>
      calc r.merge ((s.insert p.1 p.2).extend ls)
          = (r.merge (s.insert p.1 p.2)).extend ls := ih _
        _ = ((r.merge s).insert p.1 p.2).extend ls := by rw [merge_insert]

/-- A merged registry is made by the insertions of both. -/
theorem merge_ofList (xs ys : List (String × Licence)) :
    (ofList xs).merge (ofList ys) = ofList (xs ++ ys) := by
  rw [ofList, ofList, merge_extend, merge_empty, ofList, extend_append]

/-- The licences among some insertions that belong to the key of an identifier. -/
def under (id : String) (history : List (String × Licence)) : List Licence :=
  (history.filter fun p => Issn.normalize p.1 = Issn.normalize id).map Prod.snd

theorem lookup_extend (r : Registry) (ls : List (String × Licence)) (id : String) :
    (r.extend ls).lookup id = r.lookup id ++ under id ls := by
  induction ls generalizing r with
  | nil => exact (List.append_nil _).symm
  | cons p ls ih =>
      have hrest := ih (r.insert p.1 p.2)
      rw [lookup_insert] at hrest
      by_cases hkey : Issn.normalize p.1 = Issn.normalize id
      · simpa [extend, under, hkey] using hrest
      · simpa [extend, under, hkey] using hrest

theorem lookup_ofList (ls : List (String × Licence)) (id : String) :
    (ofList ls).lookup id = under id ls :=
  lookup_extend empty ls id

theorem identifiers_ofList (ls : List (String × Licence)) :
    (ofList ls).identifiers = (ls.map fun p => Issn.normalize p.1).eraseDups := by
  have hempty : empty.identifiers = ([] : List String).eraseDups := rfl
  exact keys_foldl (fun r p => r.identifiers_insert p.1 p.2) hempty ls

theorem licenceCount_extend (r : Registry) (ls : List (String × Licence)) :
    (r.extend ls).licenceCount = r.licenceCount + ls.length := by
  induction ls generalizing r with
  | nil => rfl
  | cons p ls ih =>
      have hrest := ih (r.insert p.1 p.2)
      rw [licenceCount_insert] at hrest
      rw [List.length_cons]
      exact hrest.trans (by omega)

theorem licenceCount_ofList (ls : List (String × Licence)) :
    (ofList ls).licenceCount = ls.length :=
  (licenceCount_extend empty ls).trans (Nat.zero_add _)

/-- No identifier is without licences. -/
theorem forall_mem_toList_ofList (ls : List (String × Licence)) :
    ∀ p ∈ (ofList ls).toList, p.2 ≠ [] := by
  have hrun : ∀ r : Registry, (∀ p ∈ r.toList, p.2 ≠ []) →
      ∀ p ∈ (r.extend ls).toList, p.2 ≠ [] := by
    induction ls with
    | nil => exact fun r hr => hr
    | cons q ls ih =>
        intro r hr
        refine ih (r.insert q.1 q.2) (Pairs.forall_mem_alter hr fun present => ?_)
        exact List.append_ne_nil_of_right_ne_nil _ (List.cons_ne_nil _ _)
  exact hrun .empty (List.forall_mem_nil _)

/-! ## Ways to build a registry -/

/-- How a registry was built. -/
inductive Origin where
  | empty
  | insert (o : Origin) (id : String) (l : Licence)
  | extend (o : Origin) (ls : List (String × Licence))
  | collect (ls : List (String × Licence))
  | merge (o other : Origin)

namespace Origin

/-- The registry that was built. -/
def registry : Origin → Registry
  | .empty => .empty
  | .insert o id l => o.registry.insert id l
  | .extend o ls => o.registry.extend ls
  | .collect ls => .ofList ls
  | .merge o other => o.registry.merge other.registry

/-- All insertions on the way, those of a merged registry at the place of the merging. -/
def history : Origin → List (String × Licence)
  | .empty => []
  | .insert o id l => o.history ++ [(id, l)]
  | .extend o ls => o.history ++ ls
  | .collect ls => ls
  | .merge o other => o.history ++ other.history

/-- Nothing but the history counts. -/
theorem registry_eq (o : Origin) : o.registry = .ofList o.history := by
  induction o with
  | empty => rfl
  | insert o id l ih =>
      rw [registry, history, ofList, extend_append, ih]
      rfl
  | extend o ls ih =>
      rw [registry, history, ofList, extend_append, ih]
      rfl
  | collect ls => rfl
  | merge o other ih ih' => rw [registry, history, ih, ih', merge_ofList]

end Origin

/-- A registry is a faithful image of its history, in whatever way it was built: its identifiers are
the keys of what was inserted, each once and in order of first arrival, the licences for an
identifier are those that were inserted under its key, in their order, and no licence is lost or
counted twice. So registries that were collected from two lists merge into the one that is
collected from both. -/
theorem answers_of_history :
    (∀ o : Origin,
      o.registry.identifiers = (o.history.map fun p => Issn.normalize p.1).eraseDups ∧
      (∀ id, o.registry.lookup id =
        (o.history.filter fun p => Issn.normalize p.1 = Issn.normalize id).map Prod.snd) ∧
      o.registry.licenceCount = o.history.length ∧
      ∀ id, o.registry.contains id = true ↔
        (o.history.filter fun p => Issn.normalize p.1 = Issn.normalize id) ≠ []) ∧
    ∀ xs ys, (ofList xs).merge (ofList ys) = ofList (xs ++ ys) := by
  refine ⟨fun o => ?_, merge_ofList⟩
  have hlookup : ∀ id, o.registry.lookup id = under id o.history := by
    intro id
    rw [o.registry_eq, lookup_ofList]
  refine ⟨?_, hlookup, ?_, fun id => ?_⟩
  · rw [o.registry_eq, identifiers_ofList]
  · rw [o.registry_eq, licenceCount_ofList]
  · rw [contains_iff, hlookup, under, ne_eq, List.map_eq_nil_iff]

end Registry

end Holdings
