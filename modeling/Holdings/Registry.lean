import Holdings.Coverage
import Holdings.Issn
import Holdings.Keyed
/-!
# Registries

The licences of a holdings source under the identifiers of their serials. Identifiers are
brought to their key on the way in and when they are looked up, so that all spellings of a
serial number share one place. Identifiers keep the order in which they came, and so do the
licences of each.
-/

namespace Holdings

/-- Licences under the keys of serials. -/
structure Registry where
  licences : Keyed String (List Licence)
deriving DecidableEq

namespace Registry

/-- The registry without licences. -/
def empty : Registry := ⟨.empty⟩

instance : Inhabited Registry := ⟨empty⟩

/-- Adds licences under a key, after those that it has. -/
def append (r : Registry) (key : String) (ls : List Licence) : Registry :=
  ⟨r.licences.alter key fun present => present.getD [] ++ ls⟩

/-- Adds a licence for an identifier. -/
def insert (r : Registry) (id : String) (l : Licence) : Registry :=
  r.append (Issn.normalize id) [l]

/-- Adds licences for identifiers, one after the other. -/
def extend (r : Registry) (ls : List (String × Licence)) : Registry :=
  ls.foldl (fun r p => r.insert p.1 p.2) r

/-- The registry of a list of licences. -/
def ofList (ls : List (String × Licence)) : Registry := empty.extend ls

/-- Adds all that another registry holds. -/
def merge (r other : Registry) : Registry :=
  other.licences.toList.foldl (fun r p => r.append p.1 p.2) r

/-- The licences for an identifier. -/
def lookup (r : Registry) (id : String) : List Licence :=
  (r.licences.find? (Issn.normalize id)).getD []

@[simp] theorem lookup_empty (id : String) : empty.lookup id = [] := rfl

theorem lookup_append (r : Registry) (key id : String) (ls : List Licence) :
    (r.append key ls).lookup id =
      if key = Issn.normalize id then r.lookup id ++ ls else r.lookup id := by
  unfold lookup append
  rw [Keyed.find?_alter]
  split
  · next h => rw [h, Option.getD_some]
  · rfl

/-- Whether there is a licence for an identifier. -/
def contains (r : Registry) (id : String) : Bool := !(r.lookup id).isEmpty

/-- The identifiers, in order of arrival. -/
def identifiers (r : Registry) : List String := r.licences.keys

/-- The identifiers with their licences, in order of arrival. -/
def toList (r : Registry) : List (String × List Licence) := r.licences.toList

/-- The number of identifiers. -/
def size (r : Registry) : Nat := r.licences.size

/-- The number of licences under all identifiers. -/
def licenceCount (r : Registry) : Nat := (r.toList.flatMap Prod.snd).length

/-- Whether there are no identifiers. -/
def isEmpty (r : Registry) : Bool := r.licences.isEmpty

/-- Whether some licence of some of the identifiers covers the target. -/
def coversAny (r : Registry) (ids : List String) (target : Signature) (now : Instant) : Bool :=
  ids.any fun id => (r.lookup id).any fun l => (l.covers target now).isOk

/-- Asks licences in turn until one covers the target; if none does, the violations of all. -/
def checkAll (target : Signature) (now : Instant) :
    List Licence → Except (List Violation) Unit
  | [] => .error []
  | l :: ls =>
    match l.covers target now with
    | .ok () => .ok ()
    | .error v => (checkAll target now ls).mapError (v :: ·)

/-- Whether some licence of the identifiers covers the target, and if none does, the reasons in
the order of identifiers and licences. -/
def check (r : Registry) (ids : List String) (target : Signature) (now : Instant) :
    Except (List Violation) Unit :=
  checkAll target now (ids.flatMap r.lookup)

end Registry

end Holdings
