import Holdings.Tagger
/-!
# Reading filters over what has been loaded

A computation that may load holdings takes the registries that are there and gives an outcome
together with the registries that are there afterwards. This file says so for every step that
filters are read with, so that no later proof has to look into the monad.
-/

namespace Holdings

open Json (Value)

namespace Decoding

variable {α β : Type}

/-- The outcome of a computation that starts with some registries, and what is loaded then. -/
def runFrom (x : Decoding α) (loaded : Cache) : Except Fault α × Cache := x.run loaded

@[simp] theorem runFrom_pure (a : α) (loaded : Cache) :
    runFrom (pure a) loaded = (.ok a, loaded) := rfl

@[simp] theorem runFrom_throw (f : Fault) (loaded : Cache) :
    runFrom (throw f : Decoding α) loaded = (.error f, loaded) := rfl

@[simp] theorem runFrom_refuse (f : NodeFault) (loaded : Cache) :
    runFrom (refuse f : Decoding α) loaded = (.error (.invalidFilter none f), loaded) := rfl

theorem runFrom_bind (x : Decoding α) (f : α → Decoding β) (loaded : Cache) :
    runFrom (x >>= f) loaded = match runFrom x loaded with
      | (.ok a, next) => runFrom (f a) next
      | (.error fault, next) => (.error fault, next) := by
  unfold runFrom ExceptT.run
  simp only [bind, ExceptT.bind, ExceptT.mk, StateT.bind, ExceptT.bindCont]
  cases x loaded with
  | mk outcome next => cases outcome <;> rfl

theorem runFrom_bind_ok {x : Decoding α} {loaded next : Cache} {a : α}
    (h : runFrom x loaded = (.ok a, next)) (f : α → Decoding β) :
    runFrom (x >>= f) loaded = runFrom (f a) next := by
  rw [runFrom_bind, h]

theorem runFrom_bind_error {x : Decoding α} {loaded next : Cache} {fault : Fault}
    (h : runFrom x loaded = (.error fault, next)) (f : α → Decoding β) :
    runFrom (x >>= f) loaded = (.error fault, next) := by
  rw [runFrom_bind, h]

theorem runFrom_bind_eq_ok_iff {x : Decoding α} {f : α → Decoding β} {loaded last : Cache} {b : β} :
    runFrom (x >>= f) loaded = (.ok b, last) ↔
      ∃ a next, runFrom x loaded = (.ok a, next) ∧ runFrom (f a) next = (.ok b, last) := by
  constructor
  · intro h
    cases hrun : runFrom x loaded with
    | mk outcome next =>
      cases outcome with
      | ok a => exact ⟨a, next, rfl, by rwa [runFrom_bind_ok hrun] at h⟩
      | error fault =>
          rw [runFrom_bind_error hrun] at h
          cases h
  · rintro ⟨a, next, hx, hf⟩
    rw [runFrom_bind_ok hx, hf]

theorem runFrom_demand_eq_ok_iff {fault : Json.ShapeFault → NodeFault}
    {x : Except Json.ShapeFault α} {loaded last : Cache} {a : α} :
    runFrom (demand fault x) loaded = (.ok a, last) ↔ x = .ok a ∧ last = loaded := by
  cases x with
  | ok a' =>
      rw [demand, runFrom_pure, Prod.mk.injEq, Except.ok.injEq, Except.ok.injEq,
        eq_comm (a := last)]
  | error f => exact ⟨nofun, nofun⟩

theorem runFrom_adapt (g : Fault → Fault) (x : Decoding α) (loaded : Cache) :
    runFrom (x.adapt g) loaded = ((runFrom x loaded).1.mapError g, (runFrom x loaded).2) := by
  unfold runFrom ExceptT.run ExceptT.adapt
  show (ExceptT.mk (Except.mapError g <$> x)) loaded = _
  rfl

end Decoding

open Decoding

namespace Surroundings

variable (s : Surroundings)

/-- Loading takes a registry that is there, whatever the spelling of the path, and otherwise
reads the file and keeps its registry. -/
theorem load_runFrom (name : String) (loaded : Cache) :
    runFrom (s.load name) loaded =
      match loaded.find? (Path.components (s.config.resolve name)) with
      | some r => (.ok r, loaded)
      | none =>
        match detect s.files s.config.policy (s.config.resolve name) with
        | .error f => (.error f, loaded)
        | .ok d =>
          (.ok d.reading.registry,
            loaded.put (Path.components (s.config.resolve name)) d.reading.registry) := by
  rw [load, runFrom_bind]
  show runFrom (match loaded.find? _ with | some r => _ | none => _) loaded = _
  cases loaded.find? (Path.components (s.config.resolve name)) with
  | some r => rfl
  | none =>
    show runFrom (match detect _ _ _ with | .error f => _ | .ok d => _) loaded = _
    cases detect s.files s.config.policy (s.config.resolve name) <;> rfl

variable {s} {name : String} {loaded : Cache}

theorem load_of_loaded {r : Registry}
    (h : loaded.find? (Path.components (s.config.resolve name)) = some r) :
    runFrom (s.load name) loaded = (.ok r, loaded) := by
  rw [load_runFrom, h]

theorem load_of_detect {d : Detected}
    (h : loaded.find? (Path.components (s.config.resolve name)) = none)
    (hd : detect s.files s.config.policy (s.config.resolve name) = .ok d) :
    runFrom (s.load name) loaded = (.ok d.reading.registry,
      loaded.put (Path.components (s.config.resolve name)) d.reading.registry) := by
  rw [load_runFrom, h]
  dsimp only
  rw [hd]

theorem load_of_fault {fault : Fault}
    (h : loaded.find? (Path.components (s.config.resolve name)) = none)
    (hd : detect s.files s.config.policy (s.config.resolve name) = .error fault) :
    runFrom (s.load name) loaded = (.error fault, loaded) := by
  rw [load_runFrom, h]
  dsimp only
  rw [hd]

end Surroundings

/-! ## Registered kinds -/

namespace Constructors

/-- A registry that knows no kinds but the built-in ones, under whatever names. -/
def IsBuiltin (cs : Constructors) : Prop :=
  ∀ name construct, cs.find? name = some construct → ∃ b : Builtin, construct = b.construct

theorem toList_standard :
    standard.toList = Builtin.all.map fun b => (b.name, b.construct) := rfl

theorem find?_standard (b : Builtin) : standard.find? b.name = some b.construct := by
  cases b <;> rfl

theorem exists_of_find?_standard {name : String} {k : Constructor}
    (h : standard.find? name = some k) : ∃ b : Builtin, b.name = name ∧ b.construct = k := by
  have hmem := Pairs.mem_of_find?_eq_some h
  rw [toList_standard] at hmem
  obtain ⟨b, -, he⟩ := List.mem_map.mp hmem
  exact ⟨b, congrArg Prod.fst he, congrArg Prod.snd he⟩

theorem isBuiltin_standard : standard.IsBuiltin := by
  intro name k h
  obtain ⟨b, -, hk⟩ := exists_of_find?_standard h
  exact ⟨b, hk.symm⟩

/-! ## Nodes -/

variable {s : Surroundings}

theorem decode_builtin (b : Builtin) (setting : Value) :
    standard.decode s (.object [(b.name, setting)]) =
      b.construct s setting fun node _ => standard.decode s node := by
  rw [Constructors.decode]
  simp only [find?_standard]

/-- What can be read with the built-in kinds under their own names is a node of one of them. -/
theorem exists_builtin_of_runFrom {loaded last : Cache} {node : Value} {f : Filter}
    (h : runFrom (standard.decode s node) loaded = (.ok f, last)) :
    ∃ (b : Builtin) (setting : Value), node = .object [(b.name, setting)] ∧
      runFrom (b.construct s setting fun inner _ => standard.decode s inner) loaded =
        (.ok f, last) := by
  unfold Constructors.decode at h
  split at h
  · cases h
  · next name setting =>
    split at h
    · cases h
    · next k hk =>
      obtain ⟨b, rfl, rfl⟩ := exists_of_find?_standard hk
      exact ⟨b, setting, rfl, h⟩
  · cases h
  · cases h

variable (cs : Constructors) (s)

/-- The outcome of reading a node over what has been loaded. -/
def outcome (loaded : Cache) (node : Value) : Except Fault Filter :=
  (runFrom (cs.decode s node) loaded).1

/-- What has been loaded after some more nodes were read one after the other, also those that
failed. -/
def loadedBy (loaded : Cache) (nodes : List Value) : Cache :=
  nodes.foldl (fun loaded node => (runFrom (cs.decode s node) loaded).2) loaded

end Constructors

/-! ## Properties of reading

Reading a node answers, refuses, loads, and does this one step after the other. So what is true of
the single steps and of one computation after another is true of reading any node. -/

/-- A property of computations that holds of the single steps of reading, and of two computations
one after the other if it holds of both. -/
structure Decoding.Compositional (s : Surroundings) (P : ∀ {α : Type}, Decoding α → Prop) :
    Prop where
  pure : ∀ {α : Type} (a : α), P (pure a : Decoding α)
  throw : ∀ {α : Type} (fault : Fault), P (throw fault : Decoding α)
  load : ∀ name : String, P (s.load name)
  bind : ∀ {α β : Type} {x : Decoding α} {f : α → Decoding β}, P x → (∀ a, P (f a)) → P (x >>= f)

namespace Decoding.Compositional

variable {α β : Type} {s : Surroundings} {P : ∀ {α : Type}, Decoding α → Prop}

theorem refuse (h : Compositional s P) (f : NodeFault) : P (refuse f : Decoding α) := h.throw _

theorem demand (h : Compositional s P) (fault : Json.ShapeFault → NodeFault)
    (x : Except Json.ShapeFault α) : P (demand fault x) := by
  cases x with
  | ok a => exact h.pure a
  | error f => exact h.refuse _

theorem mapM (h : Compositional s P) {f : α → Decoding β} {as : List α}
    (hf : ∀ a ∈ as, P (f a)) : P (as.mapM f) := by
  induction as with
  | nil => exact h.pure []
  | cons a as ih =>
      rw [List.mapM_cons]
      refine h.bind (hf a List.mem_cons_self) fun b => ?_
      exact h.bind (ih fun a' ha => hf a' (List.mem_cons_of_mem _ ha)) fun bs => h.pure (b :: bs)

theorem loadAll (h : Compositional s P) (merged : Registry) (names : List String) :
    P (s.loadAll merged names) := by
  induction names generalizing merged with
  | nil => exact h.pure merged
  | cons name names ih => exact h.bind (h.load name) fun r => ih (merged.merge r)

/-! ### Constructors -/

theorem identifiers (h : Compositional s P) (kind : String) (onLine : List Char → List String)
    (v : Value) : P (identifiers s kind onLine v) := by
  unfold Holdings.identifiers
  split
  · exact h.demand _ _
  · refine h.bind (h.demand _ _) fun setting => ?_
    split
    · exact h.pure _
    · dsimp only
      split
      · exact h.refuse _
      · exact h.pure _

theorem held (h : Compositional s P) (v : Value)
    (read : (node : Value) → sizeOf node ≤ sizeOf v → Decoding Filter) : P (held s v read) := by
  unfold Holdings.held
  refine h.bind (h.demand _ _) fun setting => ?_
  split
  · exact h.refuse _
  · split
    · exact h.bind (h.refuse _) fun r => h.pure _
    · exact h.bind (h.load _) fun r => h.pure _
    · exact h.bind (h.loadAll _ _) fun r => h.pure _

variable {v : Value} {read : (node : Value) → sizeOf node ≤ sizeOf v → Decoding Filter}

theorem combined (h : Compositional s P) (kind : String) (make : List Filter → Filter)
    (hread : ∀ node hn, P (read node hn)) : P (combined kind make s v read) := by
  unfold Holdings.combined
  split
  · exact h.bind (h.mapM fun node _ => hread node.1 _) fun fs => h.pure _
  · exact h.refuse _

theorem negated (h : Compositional s P) (hread : ∀ node hn, P (read node hn)) :
    P (negated s v read) := by
  unfold Holdings.negated
  split
  · exact h.bind (hread _ _) fun f => h.pure _
  · exact h.refuse _
  · exact h.bind (hread _ _) fun f => h.pure _

/-- Reading a setting of any built-in kind has the property if reading the nodes inside has it. -/
theorem construct (h : Compositional s P) (b : Builtin) (hread : ∀ node hn, P (read node hn)) :
    P (b.construct s v read) := by
  have hbare : ∀ kind f, P (bare kind f s v read) := by
    intro kind f
    unfold bare
    split
    · exact h.pure f
    · exact h.refuse _
  have hnamed : ∀ kind make, P (named kind make s v read) :=
    fun kind make => h.bind (h.demand _ _) fun names => h.pure (make names)
  have hidentified : ∀ kind onLine make, P (identified kind onLine make s v read) :=
    fun kind onLine make => h.bind (h.identifiers kind onLine v) fun ids => h.pure (make ids)
  cases b with
  | any | none => exact hbare _ _
  | source | collection | package | subject => exact hnamed _ _
  | issn | doi | isbn => exact hidentified _ _ _
  | holdings => exact h.held v read
  | and | or => exact h.combined _ _ hread
  | not => exact h.negated hread

/-- Reading a node of built-in kinds has the property, by induction on the size of the node. -/
theorem decode (h : Compositional s P) {cs : Constructors} (hcs : cs.IsBuiltin) (node : Value) :
    P (cs.decode s node) := by
  induction hn : sizeOf node using Nat.strongRecOn generalizing node with
  | ind n ih =>
    unfold Constructors.decode
    split
    · exact h.refuse _
    · next name setting =>
      split
      · exact h.throw _
      · next k hk =>
        obtain ⟨b, rfl⟩ := hcs name k hk
        refine h.construct b fun inner hle => ih _ ?_ inner rfl
        simp only [← hn, Value.object.sizeOf_spec, List.cons.sizeOf_spec, List.nil.sizeOf_spec,
          Prod.mk.sizeOf_spec]
        omega
    · exact h.refuse _
    · exact h.refuse _

end Decoding.Compositional

/-! ## What is loaded stays -/

/-- All that has been loaded is there later. -/
def Cache.Within (loaded later : Cache) : Prop :=
  ∀ key r, loaded.find? key = some r → later.find? key = some r

theorem Cache.Within.refl (loaded : Cache) : loaded.Within loaded := fun _ _ h => h

theorem Cache.Within.trans {loaded next later : Cache} (h : loaded.Within next)
    (h' : next.Within later) : loaded.Within later :=
  fun key r hf => h' key r (h key r hf)

/-- A computation that leaves in place what has been loaded. Once it has come to an answer it comes
to the same one again over what is loaded then, and there is nothing left for it to load. -/
structure Decoding.Steady {α : Type} (x : Decoding α) : Prop where
  keeps : ∀ loaded : Cache, loaded.Within (runFrom x loaded).2
  repeats : ∀ (loaded last later : Cache) (a : α), runFrom x loaded = (.ok a, last) →
    last.Within later → runFrom x later = (.ok a, later)

namespace Decoding.Steady

variable {α β : Type} {s : Surroundings}

theorem pure (a : α) : Steady (pure a : Decoding α) where
  keeps := Cache.Within.refl
  repeats := by
    rintro loaded last later a' h -
    cases h
    rfl

theorem throw (fault : Fault) : Steady (throw fault : Decoding α) where
  keeps := Cache.Within.refl
  repeats := by
    rintro loaded last later a h -
    cases h

theorem bind {x : Decoding α} {f : α → Decoding β} (hx : Steady x) (hf : ∀ a, Steady (f a)) :
    Steady (x >>= f) where
  keeps := by
    intro loaded
    have hkeeps := hx.keeps loaded
    rw [runFrom_bind]
    cases hrun : runFrom x loaded with
    | mk outcome next =>
      rw [hrun] at hkeeps
      cases outcome with
      | ok a => exact hkeeps.trans ((hf a).keeps next)
      | error fault => exact hkeeps
  repeats := by
    intro loaded last later b h hlast
    obtain ⟨a, next, hrun, hrest⟩ := runFrom_bind_eq_ok_iff.mp h
    have hnext : next.Within last := by
      have hkeeps := (hf a).keeps next
      rwa [hrest] at hkeeps
    rw [runFrom_bind_ok (hx.repeats _ _ _ _ hrun (hnext.trans hlast))]
    exact (hf a).repeats _ _ _ _ hrest hlast

/-- What a file has brought stands under its components from then on. -/
theorem find?_of_load {name : String} {loaded last : Cache} {r : Registry}
    (h : runFrom (s.load name) loaded = (.ok r, last)) :
    last.find? (Path.components (s.config.resolve name)) = some r := by
  rw [s.load_runFrom] at h
  split at h
  · next hfound =>
    cases h
    exact hfound
  · split at h
    · cases h
    · cases h
      rw [Keyed.find?_put, if_pos rfl]

theorem load (name : String) : Steady (s.load name) where
  keeps := by
    intro loaded key r hr
    rw [s.load_runFrom]
    split
    · exact hr
    · next hnone =>
      split
      · exact hr
      · -- Only what was not there is put in, so nothing is replaced.
        have hkey : Path.components (s.config.resolve name) ≠ key := by
          rintro rfl
          rw [hnone] at hr
          cases hr
        rw [Keyed.find?_put, if_neg hkey]
        exact hr
  repeats := by
    intro loaded last later r h hlast
    exact s.load_of_loaded (hlast _ _ (find?_of_load h))

theorem compositional : Compositional s fun x => Steady x :=
  ⟨pure, throw, load, bind⟩

theorem decode {cs : Constructors} (hcs : cs.IsBuiltin) (node : Value) :
    Steady (cs.decode s node) :=
  compositional.decode hcs node

end Decoding.Steady

/-! ## Members of a configuration -/

section

variable {cs : Constructors} {s : Surroundings}

theorem Tagger.decodeMembers_cons_ok {loaded next : Cache} {node : Value} {f : Filter}
    (h : runFrom (cs.decode s node) loaded = (.ok f, next)) (t : Tagger) (institution : String)
    (ms : List (String × Value)) :
    runFrom (decodeMembers cs s t ((institution, node) :: ms)) loaded =
      runFrom (decodeMembers cs s (t.insert institution f) ms) next := by
  rw [decodeMembers, runFrom_bind, runFrom_adapt, h]
  rfl

theorem Tagger.decodeMembers_cons_error {loaded next : Cache} {node : Value} {fault : Fault}
    (h : runFrom (cs.decode s node) loaded = (.error fault, next)) (t : Tagger)
    (institution : String) (ms : List (String × Value)) :
    runFrom (decodeMembers cs s t ((institution, node) :: ms)) loaded =
      (.error (fault.ownedBy institution), next) := by
  rw [decodeMembers, runFrom_bind, runFrom_adapt, h]
  rfl

end

end Holdings
