import Holdings.Proofs.Decoding
/-!
# What loading adds

Files with holdings are loaded one after the other until one of them is missing: it has not been
loaded before, and it cannot be. The fault is that of the first missing one
(`Surroundings.runFrom_loadEach_eq_error_iff`), and if none is missing, then all of them are loaded
(`Surroundings.runFrom_loadEach_eq_ok_iff`).

Loading takes nothing away. For every path that was not there and that one of the files has, in
whatever spelling, it adds one registry, which is the one that the first of these files holds
(`Surroundings.Loads.gains`).
-/

namespace Holdings

open Decoding

/-! ## Keys that are not there -/

theorem Pairs.find?_eq_none_iff {κ α : Type} [DecidableEq κ] {k : κ} {ps : List (κ × α)} :
    find? k ps = none ↔ k ∉ ps.map Prod.fst := by
  induction ps with
  | nil => exact ⟨fun _ => List.not_mem_nil, fun _ => rfl⟩
  | cons p ps ih =>
      obtain ⟨k', v⟩ := p
      rw [find?, List.map_cons, List.mem_cons, not_or, ← ih]
      by_cases h : k' = k
      · simp [h]
      · simp [h, Ne.symm h]

theorem Keyed.keys_put_of_find?_eq_none {κ α : Type} [DecidableEq κ] {m : Keyed κ α} {k : κ}
    (h : m.find? k = none) (v : α) : (m.put k v).keys = m.keys ++ [k] := by
  have hk : k ∉ m.keys := Pairs.find?_eq_none_iff.mp h
  rw [keys_put, if_neg hk]

theorem Keyed.ne_of_find? {κ α : Type} [DecidableEq κ] {m : Keyed κ α} {k k' : κ} {v : α}
    (h : m.find? k = some v) (h' : m.find? k' = none) : k ≠ k' := by
  rintro rfl
  rw [h] at h'
  cases h'

namespace Surroundings

variable {s : Surroundings} {loaded mid last : Cache} {name : String} {names : List String}

/-! ## Files that can be loaded -/

/-- What identifies the file that a name stands for. -/
def key (s : Surroundings) (name : String) : Path.Components :=
  Path.components (s.config.resolve name)

/-- Over what is there some files can be loaded one after the other, and then something else is
there. A file that is there already is not read again. -/
inductive Loads (s : Surroundings) : Cache → List String → Cache → Prop
  | nothing (loaded : Cache) : Loads s loaded [] loaded
  | cached {loaded last : Cache} {name : String} {names : List String} {r : Registry}
      (h : loaded.find? (s.key name) = some r) (hrest : Loads s loaded names last) :
      Loads s loaded (name :: names) last
  | read {loaded last : Cache} {name : String} {names : List String} {d : Detected}
      (h : loaded.find? (s.key name) = none)
      (hd : detect s.files s.config.policy (s.config.resolve name) = .ok d)
      (hrest : Loads s (loaded.put (s.key name) d.reading.registry) names last) :
      Loads s loaded (name :: names) last

/-- A file that is not there and cannot be loaded. -/
structure Missing (s : Surroundings) (loaded : Cache) (name : String) (fault : Fault) : Prop where
  absent : loaded.find? (s.key name) = none
  refused : detect s.files s.config.policy (s.config.resolve name) = .error fault

theorem Loads.append {names' : List String} (h : s.Loads loaded names mid)
    (h' : s.Loads mid names' last) : s.Loads loaded (names ++ names') last := by
  induction h with
  | nothing => exact h'
  | cached hfind _ ih => exact .cached hfind (ih h')
  | read hfind hd _ ih => exact .read hfind hd (ih h')

/-! ## What is there then -/

/-- What is there after some files were loaded: all registries that were there, and in addition
just one for each path of a file that was not there, from the first file that has it. -/
structure Gains (s : Surroundings) (loaded : Cache) (names : List String) (last : Cache) :
    Prop where
  kept : loaded.Within last
  keys : ∃ new, last.keys = loaded.keys ++ new ∧ new.Nodup ∧
    ∀ key, key ∈ new ↔ loaded.find? key = none ∧ ∃ name ∈ names, s.key name = key
  brought : ∀ key r, loaded.find? key = none → last.find? key = some r →
    ∃ name d, names.find? (fun name => s.key name = key) = some name ∧
      detect s.files s.config.policy (s.config.resolve name) = .ok d ∧ d.reading.registry = r

theorem Gains.nothing (s : Surroundings) (loaded : Cache) : s.Gains loaded [] loaded where
  kept := .refl loaded
  keys := ⟨[], (List.append_nil _).symm, List.nodup_nil, fun key =>
    ⟨fun h => absurd h List.not_mem_nil, fun ⟨_, _, h, _⟩ => absurd h List.not_mem_nil⟩⟩
  brought := by
    intro key r hnone hsome
    rw [hnone] at hsome
    cases hsome

theorem Gains.cached {r : Registry} (hfind : loaded.find? (s.key name) = some r)
    (h : s.Gains loaded names last) : s.Gains loaded (name :: names) last where
  kept := h.kept
  keys := by
    obtain ⟨new, hkeys, hnodup, hmem⟩ := h.keys
    refine ⟨new, hkeys, hnodup, fun key => (hmem key).trans (and_congr_right fun hnone => ?_)⟩
    simp [Keyed.ne_of_find? hfind hnone]
  brought := by
    intro key r' hnone hsome
    rw [List.find?_cons_of_neg (by simpa using Keyed.ne_of_find? hfind hnone)]
    exact h.brought key r' hnone hsome

theorem Gains.read {d : Detected} (hfind : loaded.find? (s.key name) = none)
    (hd : detect s.files s.config.policy (s.config.resolve name) = .ok d)
    (h : s.Gains (loaded.put (s.key name) d.reading.registry) names last) :
    s.Gains loaded (name :: names) last where
  kept := by
    intro key r hr
    refine h.kept key r ?_
    rw [Keyed.find?_put, if_neg (Keyed.ne_of_find? hr hfind).symm, hr]
  keys := by
    obtain ⟨new, hkeys, hnodup, hmem⟩ := h.keys
    rw [Keyed.keys_put_of_find?_eq_none hfind] at hkeys
    refine ⟨s.key name :: new, by rw [hkeys, List.append_assoc]; rfl, ?_, fun key => ?_⟩
    · refine List.nodup_cons.mpr ⟨fun hin => ?_, hnodup⟩
      have hnone := ((hmem _).mp hin).1
      rw [Keyed.find?_put, if_pos rfl] at hnone
      cases hnone
    · rw [List.mem_cons, hmem, Keyed.find?_put]
      by_cases hkey : s.key name = key
      · simp [← hkey, hfind]
      · simp [hkey, Ne.symm hkey]
  brought := by
    intro key r hnone hsome
    by_cases hkey : s.key name = key
    · have hput : (loaded.put (s.key name) d.reading.registry).find? key =
          some d.reading.registry := by rw [Keyed.find?_put, if_pos hkey]
      refine ⟨name, d, List.find?_cons_of_pos (by simpa using hkey), hd, ?_⟩
      exact Option.some.inj ((h.kept _ _ hput).symm.trans hsome)
    · rw [List.find?_cons_of_neg (by simpa using hkey)]
      refine h.brought key r ?_ hsome
      rw [Keyed.find?_put, if_neg hkey, hnone]

theorem Loads.gains (h : s.Loads loaded names last) : s.Gains loaded names last := by
  induction h with
  | nothing loaded => exact .nothing s loaded
  | cached hfind _ ih => exact ih.cached hfind
  | read hfind hd _ ih => exact ih.read hfind hd

end Surroundings

/-! ## Computations without their answers -/

namespace Decoding

variable {α β : Type}

/-- A computation for what it loads and how it fails, without its answer. -/
def effect (x : Decoding α) : Decoding Unit := do let _ ← x

theorem effect_pure (a : α) : effect (pure a) = pure () := rfl

theorem effect_bind (x : Decoding α) (f : α → Decoding β) :
    (x >>= f).effect = x >>= fun a => (f a).effect := by
  simp only [effect, bind_assoc]

theorem effect_seq (x : Decoding α) (y : Decoding β) :
    (do let _ ← x.effect; y) = (do let _ ← x; y) := by
  simp only [effect, bind_assoc, pure_bind]

/-- An answer that is only passed on does not matter. -/
theorem effect_map (f : α → β) (x : Decoding α) :
    (do return f (← x) : Decoding β).effect = x.effect := by
  simp only [effect_bind, effect_pure]
  rfl

theorem effect_mapM (f : α → Decoding β) (as : List α) :
    (as.mapM f).effect = forM as fun a => (f a).effect := by
  induction as with
  | nil => rfl
  | cons a as ih =>
      rw [List.mapM_cons, List.forM_cons, ← ih, effect_bind, effect_seq]
      exact bind_congr fun b => effect_map (fun bs => b :: bs) _

theorem runFrom_effect (x : Decoding α) (loaded : Cache) :
    runFrom x.effect loaded = ((runFrom x loaded).1.map fun _ => (), (runFrom x loaded).2) := by
  rw [effect, runFrom_bind]
  rcases runFrom x loaded with ⟨a | fault, next⟩ <;> rfl

theorem runFrom_effect_eq_ok_iff {x : Decoding α} {loaded last : Cache} :
    runFrom x.effect loaded = (.ok (), last) ↔ ∃ a, runFrom x loaded = (.ok a, last) := by
  rw [runFrom_effect]
  rcases runFrom x loaded with ⟨fault | a, next⟩ <;> simp [Except.map]

theorem runFrom_effect_eq_error_iff {x : Decoding α} {loaded last : Cache} {fault : Fault} :
    runFrom x.effect loaded = (.error fault, last) ↔ runFrom x loaded = (.error fault, last) := by
  rw [runFrom_effect]
  rcases runFrom x loaded with ⟨fault | a, next⟩ <;> simp [Except.map]

/-! ### One after the other -/

theorem forM_flatMap (f : β → Decoding Unit) (g : α → List β) (as : List α) :
    forM (as.flatMap g) f = forM as fun a => forM (g a) f := by
  induction as with
  | nil => rfl
  | cons a as ih => rw [List.flatMap_cons, List.forM_append, List.forM_cons, ih]

theorem forM_congr {f g : α → Decoding Unit} {as : List α} (h : ∀ a ∈ as, f a = g a) :
    forM as f = forM as g := by
  induction as with
  | nil => rfl
  | cons a as ih =>
      rw [List.forM_cons, List.forM_cons, h a List.mem_cons_self,
        ih fun a' ha => h a' (List.mem_cons_of_mem _ ha)]

/-- What comes behind starts over what the first ones have loaded. -/
theorem runFrom_forM_append {f : α → Decoding Unit} {before : List α} {loaded mid : Cache}
    (h : runFrom (forM before f) loaded = (.ok (), mid)) (rest : List α) :
    runFrom (forM (before ++ rest) f) loaded = runFrom (forM rest f) mid := by
  rw [List.forM_append, runFrom_bind_ok h]

/-- The fault is that of the first one that fails. -/
theorem runFrom_forM_eq_error_iff {f : α → Decoding Unit} {as : List α} {loaded last : Cache}
    {fault : Fault} :
    runFrom (forM as f) loaded = (.error fault, last) ↔
      ∃ before a after mid, as = before ++ a :: after ∧
        runFrom (forM before f) loaded = (.ok (), mid) ∧
        runFrom (f a) mid = (.error fault, last) := by
  constructor
  · intro h
    induction as generalizing loaded with
    | nil => cases h
    | cons a as ih =>
        rw [List.forM_cons] at h
        cases ha : runFrom (f a) loaded with
        | mk outcome next =>
          cases outcome with
          | error fault' =>
              rw [runFrom_bind_error ha] at h
              cases h
              exact ⟨[], a, as, loaded, rfl, rfl, ha⟩
          | ok u =>
              rw [runFrom_bind_ok ha] at h
              obtain ⟨before, bad, after, mid, rfl, hbefore, hbad⟩ := ih h
              refine ⟨a :: before, bad, after, mid, rfl, ?_, hbad⟩
              rw [List.forM_cons, runFrom_bind_ok ha, hbefore]
  · rintro ⟨before, a, after, mid, rfl, hbefore, ha⟩
    rw [runFrom_forM_append hbefore, List.forM_cons, runFrom_bind_error ha]

end Decoding

namespace Surroundings

variable {s : Surroundings} {loaded mid last : Cache} {name : String} {names : List String}

/-- Loads files one after the other. -/
def loadEach (s : Surroundings) (names : List String) : Decoding Unit :=
  forM names fun name => (s.load name).effect

theorem runFrom_load_eq_error_iff {fault : Fault} :
    runFrom (s.load name) loaded = (.error fault, last) ↔
      s.Missing loaded name fault ∧ last = loaded := by
  constructor
  · intro h
    cases hfind : loaded.find? (s.key name) with
    | some r =>
        rw [load_of_loaded hfind] at h
        cases h
    | none =>
        cases hd : detect s.files s.config.policy (s.config.resolve name) with
        | ok d =>
            rw [load_of_detect hfind hd] at h
            cases h
        | error fault' =>
            rw [load_of_fault hfind hd] at h
            cases h
            exact ⟨⟨hfind, hd⟩, rfl⟩
  · rintro ⟨h, rfl⟩
    exact load_of_fault h.absent h.refused

/-- Loading files one after the other comes to an end when all are loaded, and only then. -/
theorem runFrom_loadEach_eq_ok_iff :
    runFrom (s.loadEach names) loaded = (.ok (), last) ↔ s.Loads loaded names last := by
  constructor
  · intro h
    induction names generalizing loaded with
    | nil =>
        cases h
        exact .nothing _
    | cons name names ih =>
        rw [loadEach, List.forM_cons] at h
        obtain ⟨_, next, hname, hrest⟩ := runFrom_bind_eq_ok_iff.mp h
        obtain ⟨r, hr⟩ := runFrom_effect_eq_ok_iff.mp hname
        cases hfind : loaded.find? (s.key name) with
        | some r' =>
            rw [load_of_loaded hfind] at hr
            cases hr
            exact .cached hfind (ih hrest)
        | none =>
            cases hd : detect s.files s.config.policy (s.config.resolve name) with
            | ok d =>
                rw [load_of_detect hfind hd] at hr
                cases hr
                exact .read hfind hd (ih hrest)
            | error fault =>
                rw [load_of_fault hfind hd] at hr
                cases hr
  · intro h
    induction h with
    | nothing loaded => rfl
    | cached hfind _ ih =>
        rw [loadEach, List.forM_cons,
          runFrom_bind_ok (runFrom_effect_eq_ok_iff.mpr ⟨_, load_of_loaded hfind⟩)]
        exact ih
    | read hfind hd _ ih =>
        rw [loadEach, List.forM_cons,
          runFrom_bind_ok (runFrom_effect_eq_ok_iff.mpr ⟨_, load_of_detect hfind hd⟩)]
        exact ih

/-- What is there at the start and the files say what is there then. -/
theorem Loads.unique {last' : Cache} (h : s.Loads loaded names last)
    (h' : s.Loads loaded names last') : last = last' := by
  have hrun := runFrom_loadEach_eq_ok_iff.mpr h'
  rw [runFrom_loadEach_eq_ok_iff.mpr h] at hrun
  exact congrArg Prod.snd hrun

/-- It fails at the first file that is missing. -/
theorem runFrom_loadEach_eq_error_iff {fault : Fault} :
    runFrom (s.loadEach names) loaded = (.error fault, last) ↔
      ∃ before name after, names = before ++ name :: after ∧
        s.Loads loaded before last ∧ s.Missing last name fault := by
  refine runFrom_forM_eq_error_iff.trans ⟨?_, ?_⟩
  · rintro ⟨before, name, after, mid, rfl, hbefore, hname⟩
    obtain ⟨hmissing, rfl⟩ :=
      runFrom_load_eq_error_iff.mp (runFrom_effect_eq_error_iff.mp hname)
    exact ⟨before, name, after, rfl, runFrom_loadEach_eq_ok_iff.mp hbefore, hmissing⟩
  · rintro ⟨before, name, after, rfl, hbefore, hmissing⟩
    exact ⟨before, name, after, last, rfl, runFrom_loadEach_eq_ok_iff.mpr hbefore,
      runFrom_effect_eq_error_iff.mpr (runFrom_load_eq_error_iff.mpr ⟨hmissing, rfl⟩)⟩

end Surroundings

end Holdings
