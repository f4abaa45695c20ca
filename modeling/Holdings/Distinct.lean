/-!
# Identifiers that count

Of a list of identifiers, those that are not empty, each in the place where it comes first.
-/

namespace Holdings

/-- The identifiers that are not empty, each once. -/
def distinct (ids : List String) : List String :=
  (ids.filter fun id => !id.isEmpty).eraseDups

theorem mem_distinct {ids : List String} {id : String} :
    id ∈ distinct ids ↔ id ∈ ids ∧ id.isEmpty = false := by
  simp [distinct]

end Holdings
