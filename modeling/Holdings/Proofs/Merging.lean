import Holdings.Proofs.Registry
/-!
# Registries put together

Merging adds the licences of one registry to those of another, key by key, so it is no more than
adding licences many times over. Where a key stands depends on when it came first and the order of
its licences on when each of them came, and neither is changed by adding to other keys in between
(`Registry.append_comm`). So adding to what is merged is merging what was added to
(`Registry.merge_append`), and merging is associative with the empty registry as its unit. Asked
for an identifier, a merged registry has the licences of both (`Registry.lookup_merge`).
-/

namespace Holdings

namespace Registry

variable {r s : Registry}

theorem ext_toList (h : r.toList = s.toList) : r = s := by
  obtain ⟨⟨ps, hps⟩⟩ := r
  obtain ⟨⟨qs, hqs⟩⟩ := s
  obtain rfl : ps = qs := h
  rfl

theorem mem_identifiers_append {key id : String} {ls : List Licence} (h : id ∈ r.identifiers) :
    id ∈ (r.append key ls).identifiers := by
  rw [append, identifiers, Keyed.keys_alter]
  split
  · exact h
  · exact List.mem_append_left _ h

theorem self_mem_identifiers_append (r : Registry) (key : String) (ls : List Licence) :
    key ∈ (r.append key ls).identifiers := by
  rw [append, identifiers, Keyed.keys_alter]
  split
  · next h => exact h
  · exact List.mem_append_right _ List.mem_cons_self

theorem append_append (r : Registry) (key : String) (ls ms : List Licence) :
    (r.append key ls).append key ms = r.append key (ls ++ ms) := by
  apply ext_toList
  show Pairs.alter key _ (Pairs.alter key _ r.toList) = _
  rw [Pairs.alter_alter]
  simp only [Option.getD_some, List.append_assoc]
  rfl

/-- Licences under another key may come before or after, once a key has its place. -/
theorem append_comm {key key' : String} (hne : key ≠ key') (hkey : key ∈ r.identifiers)
    (ls ms : List Licence) :
    (r.append key ls).append key' ms = (r.append key' ms).append key ls :=
  ext_toList (Pairs.alter_comm hne _ _ hkey)

/-! ## Adding key by key -/

/-- A registry with the licences under some keys added one key after the other. -/
def appendAll (r : Registry) (ps : List (String × List Licence)) : Registry :=
  ps.foldl (fun r p => r.append p.1 p.2) r

theorem appendAll_cons (r : Registry) (p : String × List Licence)
    (ps : List (String × List Licence)) :
    r.appendAll (p :: ps) = (r.append p.1 p.2).appendAll ps := rfl

/-- A key that has its place and gets nothing from some others may get its licences after them. -/
theorem appendAll_append {key : String} {ps : List (String × List Licence)}
    (hkey : key ∈ r.identifiers) (hps : key ∉ ps.map Prod.fst) (ls : List Licence) :
    (r.append key ls).appendAll ps = (r.appendAll ps).append key ls := by
  induction ps generalizing r with
  | nil => rfl
  | cons p ps ih =>
      rw [List.map_cons, List.mem_cons, not_or] at hps
      rw [appendAll_cons, appendAll_cons, append_comm hps.1 hkey,
        ih (mem_identifiers_append hkey) hps.2]

/-- What is added to a list of keys is added last to the registry that takes them all in. -/
theorem appendAll_alter {ps : List (String × List Licence)} (hps : (ps.map Prod.fst).Nodup)
    (r : Registry) (key : String) (ls : List Licence) :
    r.appendAll (Pairs.alter key (fun present => present.getD [] ++ ls) ps) =
      (r.appendAll ps).append key ls := by
  induction ps generalizing r with
  | nil => rfl
  | cons p ps ih =>
      obtain ⟨key', ls'⟩ := p
      rw [List.map_cons, List.nodup_cons] at hps
      rw [Pairs.alter]
      split
      · next h =>
        subst h
        rw [appendAll_cons, appendAll_cons, Option.getD_some, ← append_append]
        exact appendAll_append (self_mem_identifiers_append r key' ls') hps.1 ls
      · rw [appendAll_cons, appendAll_cons, ih hps.2]

theorem toList_appendAll {ps : List (String × List Licence)}
    (h : (r.toList.map Prod.fst ++ ps.map Prod.fst).Nodup) :
    (r.appendAll ps).toList = r.toList ++ ps := by
  induction ps generalizing r with
  | nil => exact (List.append_nil _).symm
  | cons p ps ih =>
      obtain ⟨key, ls⟩ := p
      have hkey : key ∉ r.toList.map Prod.fst := fun hm =>
        (List.nodup_append.mp h).2.2 key hm key List.mem_cons_self rfl
      have htoList : (r.append key ls).toList = r.toList ++ [(key, ls)] :=
        Pairs.alter_of_not_mem hkey
      rw [appendAll_cons, ih, htoList, List.append_assoc, List.singleton_append]
      rw [htoList, List.map_append, List.append_assoc]
      exact h

theorem lookup_appendAll {ps : List (String × List Licence)} (hps : (ps.map Prod.fst).Nodup)
    (r : Registry) (id : String) :
    (r.appendAll ps).lookup id =
      r.lookup id ++ (Pairs.find? (Issn.normalize id) ps).getD [] := by
  induction ps generalizing r with
  | nil => exact (List.append_nil _).symm
  | cons p ps ih =>
      obtain ⟨key, ls⟩ := p
      rw [List.map_cons, List.nodup_cons] at hps
      rw [appendAll_cons, ih hps.2, lookup_append, Pairs.find?]
      split
      · next h =>
        -- The key stands nowhere else.
        have hnone : Pairs.find? (Issn.normalize id) ps = none := by
          cases hf : Pairs.find? (Issn.normalize id) ps with
          | none => rfl
          | some ms =>
              exact absurd (List.mem_map_of_mem (Pairs.mem_of_find?_eq_some hf)) (h ▸ hps.1)
        rw [hnone, Option.getD_none, List.append_nil, Option.getD_some]
      · rfl

/-! ## Merging -/

theorem merge_append (r s : Registry) (key : String) (ls : List Licence) :
    r.merge (s.append key ls) = (r.merge s).append key ls :=
  appendAll_alter s.licences.nodup r key ls

theorem merge_insert (r s : Registry) (id : String) (l : Licence) :
    r.merge (s.insert id l) = (r.merge s).insert id l :=
  r.merge_append s (Issn.normalize id) [l]

@[simp] theorem merge_empty (r : Registry) : r.merge .empty = r := rfl

@[simp] theorem empty_merge (r : Registry) : empty.merge r = r :=
  ext_toList (toList_appendAll r.licences.nodup)

theorem merge_appendAll (r s : Registry) (ps : List (String × List Licence)) :
    r.merge (s.appendAll ps) = (r.merge s).appendAll ps := by
  induction ps generalizing s with
  | nil => rfl
  | cons p ps ih => rw [appendAll_cons, ih, merge_append, appendAll_cons]

theorem merge_assoc (r s t : Registry) : (r.merge s).merge t = r.merge (s.merge t) :=
  (r.merge_appendAll s t.toList).symm

/-- A merged registry has the licences of both under an identifier, those of the first before. -/
theorem lookup_merge (r s : Registry) (id : String) :
    (r.merge s).lookup id = r.lookup id ++ s.lookup id :=
  lookup_appendAll s.licences.nodup r id

theorem coversAny_merge (r s : Registry) (ids : List String) (target : Signature)
    (now : Instant) :
    (r.merge s).coversAny ids target now =
      (r.coversAny ids target now || s.coversAny ids target now) := by
  rw [Bool.eq_iff_iff, Bool.or_eq_true, coversAny_iff, coversAny_iff, coversAny_iff]
  simp only [lookup_merge, List.mem_append]
  constructor
  · rintro ⟨id, hid, l, hl | hl, hcovers⟩
    · exact Or.inl ⟨id, hid, l, hl, hcovers⟩
    · exact Or.inr ⟨id, hid, l, hl, hcovers⟩
  · rintro (⟨id, hid, l, hl, hcovers⟩ | ⟨id, hid, l, hl, hcovers⟩)
    · exact ⟨id, hid, l, Or.inl hl, hcovers⟩
    · exact ⟨id, hid, l, Or.inr hl, hcovers⟩

end Registry

end Holdings
