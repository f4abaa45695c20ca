import Holdings.Registry
/-!
# Asking a registry

A registry is asked for some licence, under one of the identifiers of a record, that covers a
target. The question that collects reasons has the same answer as the one that does not, so
both come down to the existence of such a licence.
-/

namespace Holdings

theorem isOk_iff {ε : Type} {x : Except ε Unit} : x.isOk = true ↔ x = .ok () := by
  cases x with
  | error e => exact ⟨nofun, nofun⟩
  | ok u => exact ⟨fun _ => rfl, fun _ => rfl⟩

namespace Registry

variable {r : Registry} {ids : List String} {target : Signature} {now : Instant}

/-- The licences under all identifiers. -/
def allLicences (r : Registry) : List Licence := r.toList.flatMap Prod.snd

theorem mem_allLicences_of_mem_lookup {id : String} {l : Licence} (h : l ∈ r.lookup id) :
    l ∈ r.allLicences := by
  unfold lookup at h
  cases hf : r.licences.find? (Issn.normalize id) with
  | none => rw [hf] at h; exact absurd h List.not_mem_nil
  | some ls =>
      rw [hf] at h
      exact List.mem_flatMap.mpr ⟨_, Pairs.mem_of_find?_eq_some hf, h⟩

theorem coversAny_iff :
    r.coversAny ids target now = true ↔
      ∃ id ∈ ids, ∃ l ∈ r.lookup id, l.covers target now = .ok () := by
  simp only [coversAny, List.any_eq_true, isOk_iff]

theorem isOk_checkAll (target : Signature) (now : Instant) (ls : List Licence) :
    (checkAll target now ls).isOk = ls.any fun l => (l.covers target now).isOk := by
  induction ls with
  | nil => rfl
  | cons l ls ih =>
      rw [List.any_cons, ← ih, checkAll]
      cases l.covers target now with
      | ok u => rfl
      | error v => cases checkAll target now ls <;> rfl

/-- Reasons are collected on the side; they do not change the answer. -/
theorem isOk_check (r : Registry) (ids : List String) (target : Signature) (now : Instant) :
    (r.check ids target now).isOk = r.coversAny ids target now := by
  rw [check, isOk_checkAll, List.any_flatMap]
  rfl

end Registry

end Holdings
