/-!
# Values under keys, in order of arrival

A list of pairs in which no key stands twice. A new key goes to the end; a key that is there
keeps its place when its value changes. The view of a collection is `find?` together with
`keys`.
-/

namespace Holdings

namespace Pairs

variable {κ α : Type} [DecidableEq κ]

/-- The value under a key. -/
def find? (k : κ) : List (κ × α) → Option α
  | [] => none
  | (k', v) :: ps => if k' = k then some v else find? k ps

/-- Gives the key `k` the value that `f` makes of the present one, in its place; a key that is
not there comes last. -/
def alter (k : κ) (f : Option α → α) : List (κ × α) → List (κ × α)
  | [] => [(k, f none)]
  | (k', v) :: ps => if k' = k then (k', f (some v)) :: ps else (k', v) :: alter k f ps

/-- Puts a value under a key. -/
def put (k : κ) (v : α) (ps : List (κ × α)) : List (κ × α) :=
  alter k (fun _ => v) ps

theorem keys_alter (k : κ) (f : Option α → α) (ps : List (κ × α)) :
    (alter k f ps).map Prod.fst =
      if k ∈ ps.map Prod.fst then ps.map Prod.fst else ps.map Prod.fst ++ [k] := by
  induction ps with
  | nil => simp [alter]
  | cons p ps ih =>
    obtain ⟨k', v⟩ := p
    by_cases h : k' = k
    · simp [alter, h]
    · have h' : ¬ k = k' := fun e => h e.symm
      simp only [alter, if_neg h, List.map_cons, ih, List.mem_cons, h', false_or]
      split <;> simp

theorem nodup_alter (k : κ) (f : Option α → α) {ps : List (κ × α)}
    (h : (ps.map Prod.fst).Nodup) : ((alter k f ps).map Prod.fst).Nodup := by
  rw [keys_alter]
  split
  · exact h
  · next hk =>
    rw [List.nodup_append]
    refine ⟨h, by simp, ?_⟩
    intro a ha b hb e
    rw [List.mem_singleton.1 hb] at e
    exact hk (e ▸ ha)

/-- A key that is not there comes last. -/
theorem alter_of_not_mem {k : κ} {f : Option α → α} {ps : List (κ × α)}
    (h : k ∉ ps.map Prod.fst) : alter k f ps = ps ++ [(k, f none)] := by
  induction ps with
  | nil => rfl
  | cons p ps ih =>
      obtain ⟨k', v⟩ := p
      rw [List.map_cons, List.mem_cons, not_or] at h
      rw [alter, if_neg (Ne.symm h.1), ih h.2, List.cons_append]

/-- Two changes under one key are one change. -/
theorem alter_alter (k : κ) (f g : Option α → α) (ps : List (κ × α)) :
    alter k g (alter k f ps) = alter k (fun present => g (some (f present))) ps := by
  induction ps with
  | nil => simp [alter]
  | cons p ps ih =>
      obtain ⟨k', v⟩ := p
      by_cases h : k' = k
      · simp [alter, h]
      · simp [alter, h, ih]

/-- Changes under two keys can be made in either order, if one of the keys is there already. -/
theorem alter_comm {k k' : κ} (hne : k ≠ k') (f g : Option α → α) {ps : List (κ × α)}
    (hk : k ∈ ps.map Prod.fst) : alter k' g (alter k f ps) = alter k f (alter k' g ps) := by
  induction ps with
  | nil => exact absurd hk List.not_mem_nil
  | cons p ps ih =>
      obtain ⟨a, v⟩ := p
      by_cases ha : a = k
      · have ha' : ¬ a = k' := fun he => hne (ha.symm.trans he)
        simp [alter, ha, hne]
      · by_cases ha' : a = k'
        · simp [alter, ha', Ne.symm hne]
        · have hk' : k ∈ ps.map Prod.fst := (List.mem_cons.mp hk).resolve_left (Ne.symm ha)
          simp [alter, ha, ha', ih hk']

/-- What all pairs have in common they keep in a change whose outcome has it too. -/
theorem forall_mem_alter {P : κ × α → Prop} {k : κ} {f : Option α → α} {ps : List (κ × α)}
    (hps : ∀ p ∈ ps, P p) (hf : ∀ present, P (k, f present)) : ∀ p ∈ alter k f ps, P p := by
  induction ps with
  | nil => exact List.forall_mem_cons.mpr ⟨hf none, hps⟩
  | cons p ps ih =>
      obtain ⟨hp, hrest⟩ := List.forall_mem_cons.mp hps
      obtain ⟨k', v⟩ := p
      rw [alter]
      split
      · next hk => exact List.forall_mem_cons.mpr ⟨hk ▸ hf (some v), hrest⟩
      · exact List.forall_mem_cons.mpr ⟨hp, ih hrest⟩

theorem find?_alter (k k' : κ) (f : Option α → α) (ps : List (κ × α)) :
    find? k' (alter k f ps) = if k = k' then some (f (find? k ps)) else find? k' ps := by
  induction ps with
  | nil => by_cases h : k = k' <;> simp [alter, find?, h]
  | cons p ps ih =>
    obtain ⟨a, v⟩ := p
    by_cases h : a = k
    · subst h
      by_cases h' : a = k' <;> simp [alter, find?, h']
    · by_cases h' : a = k'
      · subst h'
        simp [alter, find?, h, Ne.symm h]
      · simp [alter, find?, h, h', ih]

theorem mem_of_find?_eq_some {k : κ} {v : α} {ps : List (κ × α)} (h : find? k ps = some v) :
    (k, v) ∈ ps := by
  induction ps with
  | nil => exact nomatch h
  | cons p ps ih =>
      obtain ⟨k', v'⟩ := p
      rw [find?] at h
      split at h
      · next hk =>
        rw [hk, Option.some.inj h]
        exact List.mem_cons_self
      · exact List.mem_cons_of_mem _ (ih h)

/-- Where no key stands twice, a key is found with the value that stands beside it. -/
theorem find?_eq_some_of_mem {k : κ} {v : α} {ps : List (κ × α)}
    (hps : (ps.map Prod.fst).Nodup) (h : (k, v) ∈ ps) : find? k ps = some v := by
  induction ps with
  | nil => exact absurd h List.not_mem_nil
  | cons p ps ih =>
      obtain ⟨k', v'⟩ := p
      rw [List.map_cons, List.nodup_cons] at hps
      rw [find?]
      rcases List.mem_cons.mp h with heq | hmem
      · cases heq
        rw [if_pos rfl]
      · have hkey : k ∈ ps.map Prod.fst := List.mem_map_of_mem (f := Prod.fst) hmem
        have hne : k' ≠ k := fun he => hps.1 (he ▸ hkey)
        rw [if_neg hne, ih hps.2 hmem]

end Pairs

/-- Values of type `α` under keys of type `κ`, in the order in which the keys came. -/
structure Keyed (κ α : Type) where
  toList : List (κ × α)
  nodup : (toList.map Prod.fst).Nodup
deriving DecidableEq

namespace Keyed

variable {κ α : Type}

/-- No keys. -/
def empty : Keyed κ α := ⟨[], by simp⟩

instance : Inhabited (Keyed κ α) := ⟨empty⟩

/-- The keys, in order of arrival. -/
def keys (m : Keyed κ α) : List κ := m.toList.map Prod.fst

/-- The number of keys. -/
def size (m : Keyed κ α) : Nat := m.toList.length

/-- Whether there are no keys. -/
def isEmpty (m : Keyed κ α) : Bool := m.toList.isEmpty

variable [DecidableEq κ]

/-- The value under a key. -/
def find? (m : Keyed κ α) (k : κ) : Option α := Pairs.find? k m.toList

/-- Gives a key the value that `f` makes of its present one. -/
def alter (m : Keyed κ α) (k : κ) (f : Option α → α) : Keyed κ α :=
  ⟨Pairs.alter k f m.toList, Pairs.nodup_alter k f m.nodup⟩

/-- Puts a value under a key. -/
def put (m : Keyed κ α) (k : κ) (v : α) : Keyed κ α := m.alter k fun _ => v

@[simp] theorem find?_empty (k : κ) : (empty : Keyed κ α).find? k = none := rfl

theorem find?_alter (m : Keyed κ α) (k k' : κ) (f : Option α → α) :
    (m.alter k f).find? k' = if k = k' then some (f (m.find? k)) else m.find? k' :=
  Pairs.find?_alter k k' f m.toList

theorem keys_alter (m : Keyed κ α) (k : κ) (f : Option α → α) :
    (m.alter k f).keys = if k ∈ m.keys then m.keys else m.keys ++ [k] :=
  Pairs.keys_alter k f m.toList

theorem find?_put (m : Keyed κ α) (k k' : κ) (v : α) :
    (m.put k v).find? k' = if k = k' then some v else m.find? k' :=
  m.find?_alter k k' fun _ => v

theorem keys_put (m : Keyed κ α) (k : κ) (v : α) :
    (m.put k v).keys = if k ∈ m.keys then m.keys else m.keys ++ [k] :=
  m.keys_alter k fun _ => v

end Keyed

end Holdings
