import Mathlib
import Holdings.Proofs.Decoding
import Holdings.Proofs.Spelling
/-!
# What has been loaded is not seen

Filters that are read one after the other share the registries that they load. A registry is kept
under the components of its path, and while a file is found by its path as it is spelled, what is
kept is what any spelling that leads to the file would bring. So the only way in which a filter can
tell that other filters were read before it is that it spells a path in a way that does not lead to
the file (`Surroundings.Respelled`): by itself it fails there, over what has been loaded it goes on
(`Constructors.outcome_loadedBy`).

The proof compares two runs of one computation, one over what has been loaded and one by itself,
step by step (`Discreet`).
-/

namespace Holdings

open Json (Value)
open Decoding

namespace Surroundings

variable (s : Surroundings)

/-- Every registry that has been loaded is that of a file, under the components of a path that
leads to it. -/
def Sound (loaded : Cache) : Prop :=
  ∀ key r, loaded.find? key = some r →
    ∃ path d, Path.components path = key ∧ detect s.files s.config.policy path = .ok d ∧
      d.reading.registry = r

/-- The fault of a path that does not lead to the file that has been loaded under another spelling
of it. -/
def Respelled (loaded : Cache) (fault : Fault) : Prop :=
  ∃ path f, fault = .holdings path (.file f) ∧ s.files.read path = .error f ∧
    (f = .notDirectory ∨ f = .nameTooLong) ∧ (loaded.find? (Path.components path)).isSome = true

variable {s}

theorem sound_empty : s.Sound .empty := by
  intro key r h
  cases h

theorem Sound.put {loaded : Cache} (h : s.Sound loaded) {path : String} {d : Detected}
    (hd : detect s.files s.config.policy path = .ok d) :
    s.Sound (loaded.put (Path.components path) d.reading.registry) := by
  intro key r hf
  rw [Keyed.find?_put] at hf
  split at hf
  · next hkey => exact ⟨path, d, hkey, hd, Option.some.inj hf⟩
  · exact h key r hf

theorem read_of_detect {path : String} {d : Detected}
    (h : detect s.files s.config.policy path = .ok d) :
    ∃ bytes, s.files.read path = .ok bytes ∧ Format.detect s.config.policy bytes = .ok d := by
  unfold detect at h
  split at h
  · cases h
  · next bytes hread =>
    split at h
    · next d' hd => exact ⟨bytes, hread, hd.trans (congrArg _ (Except.ok.inj h))⟩
    · cases h
    · cases h

/-- What has been loaded under the components of a path is what the path brings, unless it does
not lead to the file. -/
theorem Sound.detect_eq {loaded : Cache} (h : s.Sound loaded) {path : String} {r : Registry}
    (hf : loaded.find? (Path.components path) = some r) :
    (∃ d, detect s.files s.config.policy path = .ok d ∧ d.reading.registry = r) ∨
      ∃ fault, detect s.files s.config.policy path = .error fault ∧ s.Respelled loaded fault := by
  obtain ⟨other, d, hkey, hd, hr⟩ := h _ r hf
  obtain ⟨bytes, hread, hformat⟩ := read_of_detect hd
  have hsome : (loaded.find? (Path.components path)).isSome = true := by rw [hf]; rfl
  rcases FileTree.read_respelled hread hkey with hok | hdir | hlong
  · exact Or.inl ⟨d, by simp only [detect, hok, hformat], hr⟩
  · exact Or.inr ⟨_, by simp only [detect, hdir], path, _, rfl, hdir, Or.inl rfl, hsome⟩
  · exact Or.inr ⟨_, by simp only [detect, hlong], path, _, rfl, hlong, Or.inr rfl, hsome⟩

end Surroundings

/-! ## Two runs of a computation -/

/-- What a run by itself has loaded, together with what was there at the start of the other run,
is what the other run has. -/
def Joined (start own shared : Cache) : Prop :=
  ∀ key, shared.find? key = (own.find? key).or (start.find? key)

theorem Joined.put {start own shared : Cache} (h : Joined start own shared)
    (key : Path.Components) (r : Registry) :
    Joined start (own.put key r) (shared.put key r) := by
  intro other
  rw [Keyed.find?_put, Keyed.find?_put, h other]
  split <;> rfl

theorem joined_empty (start : Cache) : Joined start .empty start := fun _ => rfl

/-- A computation that cannot tell what had been loaded when it started: it has the outcome that
it has by itself, unless that is the fault of a path in another spelling than the one that had been
loaded. In any case it adds nothing to what is loaded but what is in the files. -/
structure Discreet {α : Type} (s : Surroundings) (x : Decoding α) : Prop where
  sound : ∀ loaded, s.Sound loaded → s.Sound (runFrom x loaded).2
  agrees : ∀ start own shared, s.Sound start → Joined start own shared →
    ((runFrom x own).1 = (runFrom x shared).1 ∧
        Joined start (runFrom x own).2 (runFrom x shared).2) ∨
      ∃ fault, (runFrom x own).1 = .error fault ∧ s.Respelled start fault

namespace Discreet

variable {α β : Type} {s : Surroundings}

theorem pure (a : α) : Discreet s (pure a) where
  sound := fun _ h => h
  agrees := fun _ _ _ _ h => Or.inl ⟨rfl, h⟩

theorem throw (fault : Fault) : Discreet s (throw fault : Decoding α) where
  sound := fun _ h => h
  agrees := fun _ _ _ _ h => Or.inl ⟨rfl, h⟩

theorem bind {x : Decoding α} {f : α → Decoding β} (hx : Discreet s x)
    (hf : ∀ a, Discreet s (f a)) : Discreet s (x >>= f) where
  sound := by
    intro loaded h
    have hnext := hx.sound loaded h
    rw [runFrom_bind]
    cases hrun : runFrom x loaded with
    | mk outcome next =>
      rw [hrun] at hnext
      cases outcome with
      | ok a => exact (hf a).sound next hnext
      | error fault => exact hnext
  agrees := by
    intro start own shared hs hj
    have h := hx.agrees start own shared hs hj
    rw [runFrom_bind, runFrom_bind]
    cases hown : runFrom x own with
    | mk outcome own' =>
      cases hshared : runFrom x shared with
      | mk outcome' shared' =>
        simp only [hown, hshared] at h
        rcases h with ⟨rfl, hj'⟩ | ⟨fault, rfl, hr⟩
        · cases outcome with
          | ok a => exact (hf a).agrees start own' shared' hs hj'
          | error fault => exact Or.inl ⟨rfl, hj'⟩
        · exact Or.inr ⟨fault, rfl, hr⟩

/-- The step that everything rests on: loading a file that is there takes what reading it would
bring. -/
theorem load (name : String) : Discreet s (s.load name) where
  sound := by
    intro loaded h
    rw [s.load_runFrom]
    split
    · exact h
    · split
      · exact h
      · next d hd => exact h.put hd
  agrees := by
    intro start own shared hs hj
    have hkey := hj (Path.components (s.config.resolve name))
    rw [s.load_runFrom, s.load_runFrom]
    cases hown : own.find? (Path.components (s.config.resolve name)) with
    | some r =>
        rw [hown, Option.some_or] at hkey
        rw [hkey]
        exact Or.inl ⟨rfl, hj⟩
    | none =>
        rw [hown, Option.none_or] at hkey
        cases hstart : start.find? (Path.components (s.config.resolve name)) with
        | none =>
            rw [hstart] at hkey
            rw [hkey]
            cases Surroundings.detect s.files s.config.policy (s.config.resolve name) with
            | error fault => exact Or.inl ⟨rfl, hj⟩
            | ok d => exact Or.inl ⟨rfl, hj.put _ _⟩
        | some r =>
            rw [hstart] at hkey
            rw [hkey]
            rcases hs.detect_eq hstart with ⟨d, hd, rfl⟩ | ⟨fault, hd, hr⟩
            · rw [hd]
              refine Or.inl ⟨rfl, fun other => ?_⟩
              -- What the run by itself adds had been there at the start of the other one.
              rw [Keyed.find?_put, hj other]
              split
              · next he => rw [← he, hown, hstart]; rfl
              · rfl
            · rw [hd]
              exact Or.inr ⟨fault, rfl, hr⟩

theorem compositional : Compositional s fun x => Discreet s x :=
  ⟨pure, throw, load, bind⟩

/-- Nodes are read discreetly. -/
theorem decode {cs : Constructors} (hcs : cs.IsBuiltin) (node : Value) :
    Discreet s (cs.decode s node) :=
  compositional.decode hcs node

end Discreet

/-! ## Nodes one after the other -/

namespace Constructors

variable {cs : Constructors} {s : Surroundings}

theorem sound_loadedBy (hcs : cs.IsBuiltin) {loaded : Cache} (h : s.Sound loaded)
    (nodes : List Value) : s.Sound (cs.loadedBy s loaded nodes) := by
  induction nodes generalizing loaded with
  | nil => exact h
  | cons node nodes ih => exact ih ((Discreet.decode hcs node).sound loaded h)

/-- The outcome of a node over what other nodes have loaded is its own, unless by itself it fails
at a path in another spelling. -/
theorem outcome_eq_or_respelled (hcs : cs.IsBuiltin) {loaded : Cache} (h : s.Sound loaded)
    (node : Value) :
    cs.outcome s loaded node = cs.outcome s .empty node ∨
      ∃ fault, cs.outcome s .empty node = .error fault ∧ s.Respelled loaded fault := by
  rcases (Discreet.decode hcs node).agrees loaded .empty loaded h (joined_empty loaded) with
    ⟨he, -⟩ | hr
  · exact Or.inl he.symm
  · exact Or.inr hr

end Constructors

/-! ## Institutions in another order -/

namespace Tagger

variable {cs : Constructors} {s : Surroundings} {loaded : Cache} {t : Tagger}
  {members : List (String × Value)}

/-- If each filter can be read by itself, all can be read one after the other. -/
theorem exists_decodeMembers_ok (hcs : cs.IsBuiltin) (hs : s.Sound loaded)
    (h : ∀ m ∈ members, ∃ f, cs.outcome s .empty m.2 = .ok f) :
    ∃ t', (runFrom (decodeMembers cs s t members) loaded).1 = .ok t' := by
  induction members generalizing loaded t with
  | nil => exact ⟨t, rfl⟩
  | cons m ms ih =>
      obtain ⟨institution, node⟩ := m
      obtain ⟨f, hown⟩ := h _ List.mem_cons_self
      have hshared : cs.outcome s loaded node = .ok f := by
        rcases Constructors.outcome_eq_or_respelled hcs hs node with he | ⟨fault, he, -⟩
        · rw [he, hown]
        · rw [hown] at he
          cases he
      have hnext := (Discreet.decode hcs node).sound loaded hs
      rw [Constructors.outcome] at hshared
      rw [decodeMembers_cons_ok (Prod.ext hshared rfl)]
      exact ih hnext fun m hm => h m (List.mem_cons_of_mem _ hm)

/-- If all filters can be read one after the other, then each of them can be read over what those
before it have loaded. -/
theorem exists_outcome_ok {t' : Tagger}
    (h : (runFrom (decodeMembers cs s t members) loaded).1 = .ok t')
    {before after : List (String × Value)} {m : String × Value}
    (hm : members = before ++ m :: after) :
    ∃ f, cs.outcome s (cs.loadedBy s loaded (before.map Prod.snd)) m.2 = .ok f := by
  induction before generalizing members loaded t with
  | nil =>
      obtain ⟨institution, node⟩ := m
      rw [hm, List.nil_append] at h
      cases hrun : runFrom (cs.decode s node) loaded with
      | mk outcome next =>
        cases outcome with
        | ok f => exact ⟨f, congrArg Prod.fst hrun⟩
        | error fault =>
            rw [decodeMembers_cons_error hrun] at h
            cases h
  | cons first before ih =>
      obtain ⟨institution, node⟩ := first
      rw [hm, List.cons_append] at h
      cases hrun : runFrom (cs.decode s node) loaded with
      | mk outcome next =>
        cases outcome with
        | ok f =>
            rw [decodeMembers_cons_ok hrun] at h
            have := ih h rfl
            rwa [List.map_cons, Constructors.loadedBy, List.foldl_cons, hrun]
        | error fault =>
            rw [decodeMembers_cons_error hrun] at h
            cases h

end Tagger

namespace Constructors

variable {cs : Constructors} {s : Surroundings}

/-- What had been loaded by other nodes, also by those that failed, is not seen: a node has the
outcome that it has by itself, unless by itself it fails at a path that does not lead to the file
that another spelling of it has loaded. So a configuration that is accepted is accepted in any
order of its institutions, unless the filter of one of them is of that sort. -/
theorem outcome_loadedBy (hcs : cs.IsBuiltin) :
    (∀ (history : List Value) (node : Value),
      cs.outcome s (cs.loadedBy s .empty history) node = cs.outcome s .empty node ∨
        ∃ fault, cs.outcome s .empty node = .error fault ∧
          s.Respelled (cs.loadedBy s .empty history) fault) ∧
    ∀ (members reordered : List (String × Value)), members.Perm reordered →
      (Tagger.ofValue cs s (.object members)).isOk = true →
      (Tagger.ofValue cs s (.object reordered)).isOk = true ∨
        ∃ before m after fault, members = before ++ m :: after ∧
          cs.outcome s .empty m.2 = .error fault ∧
          s.Respelled (cs.loadedBy s .empty (before.map Prod.snd)) fault := by
  refine ⟨fun history node => ?_, fun members reordered hperm haccepted => ?_⟩
  · exact outcome_eq_or_respelled hcs (sound_loadedBy hcs Surroundings.sound_empty history) node
  · by_cases heach : ∀ m ∈ members, ∃ f, cs.outcome s .empty m.2 = .ok f
    · have heach' : ∀ m ∈ reordered, ∃ f, cs.outcome s .empty m.2 = .ok f :=
        fun m hm => heach m (hperm.mem_iff.mpr hm)
      obtain ⟨t, ht⟩ := Tagger.exists_decodeMembers_ok hcs Surroundings.sound_empty heach'
      refine Or.inl ?_
      show (runFrom (Tagger.decodeMembers cs s .empty reordered) .empty).1.isOk = true
      rw [ht]
      rfl
    · obtain ⟨m, hexists⟩ := Classical.not_forall.mp heach
      obtain ⟨hm, hnone⟩ := Classical.not_imp.mp hexists
      obtain ⟨before, after, hsplit⟩ := List.append_of_mem hm
      refine Or.inr ⟨before, m, after, ?_⟩
      cases hrun : (runFrom (Tagger.decodeMembers cs s .empty members) .empty).1 with
      | error fault =>
          have : (Except.error fault : Except Fault Tagger).isOk = true := hrun ▸ haccepted
          cases this
      | ok t =>
          obtain ⟨f, hshared⟩ := Tagger.exists_outcome_ok hrun hsplit
          have hs := sound_loadedBy hcs (Surroundings.sound_empty (s := s)) (before.map Prod.snd)
          rcases outcome_eq_or_respelled hcs hs m.2 with he | ⟨fault, he, hr⟩
          · exact absurd ⟨f, he.symm.trans hshared⟩ hnone
          · exact ⟨fault, hsplit, he, hr⟩

/-! ### One file under several paths -/

/-- A filter on the holdings in one file. -/
def heldIn (path : String) : Value := .object [("holdings", .object [("file", .string path)])]

/-- A filter on the holdings in some files. -/
def heldInAll (paths : List String) : Value :=
  .object [("holdings", .object [("files", .ofTexts paths)])]

theorem runFrom_decode_heldIn (s : Surroundings) (path : String) (loaded : Cache) :
    runFrom (standard.decode s (heldIn path)) loaded =
      ((runFrom (s.load path) loaded).1.map fun r => .holdings ⟨[path], r, s.config.verbose⟩,
        (runFrom (s.load path) loaded).2) := by
  have hheld : standard.find? "holdings" = some held := find?_standard .holdings
  unfold heldIn Constructors.decode
  simp only [hheld]
  show runFrom (s.load path >>= _) loaded = _
  rw [runFrom_bind]
  rcases runFrom (s.load path) loaded with ⟨r | fault, next⟩ <;> rfl

/-- A file with one licence. -/
def oneFile : Surroundings where
  files :=
    { files := [(["a.tsv"], Text.Utf8.encode
        "title\tprint\nA\t1234-5678\t\t2000\t\t\t\t\t\t\t\t\t\n".toList)]
      directories := []
      working := [] }
  config := .standard

theorem detect_oneFile : ∃ d, Surroundings.detect oneFile.files .lenient "a.tsv" = .ok d := by
  have hok : (Surroundings.detect oneFile.files .lenient "a.tsv").isOk = true := by cbv
  cases h : Surroundings.detect oneFile.files .lenient "a.tsv" with
  | ok d => exact ⟨d, rfl⟩
  | error fault => rw [h] at hok; cases hok

/-- The first filter on the file loads it, and then every path with its components is taken for
it. -/
theorem runFrom_decode_oneFile :
    ∃ loaded : Cache,
      (∀ name, oneFile.config.resolve name = "a.tsv" →
        ∃ f, runFrom (standard.decode oneFile (heldIn name)) .empty = (.ok f, loaded)) ∧
      ∀ name, Path.components (oneFile.config.resolve name) = Path.components "a.tsv" →
        ∃ f, runFrom (standard.decode oneFile (heldIn name)) loaded = (.ok f, loaded) := by
  obtain ⟨d, hd⟩ := detect_oneFile
  refine ⟨Keyed.empty.put (Path.components "a.tsv") d.reading.registry, ?_, ?_⟩
  · intro name hname
    have hload := Surroundings.load_of_detect (Keyed.find?_empty _) (hname ▸ hd)
    rw [runFrom_decode_heldIn, hload, hname]
    exact ⟨_, rfl⟩
  · intro name hname
    have hfind : (Keyed.empty.put (Path.components "a.tsv") d.reading.registry : Cache).find?
        (Path.components (oneFile.config.resolve name)) = some d.reading.registry := by
      rw [Keyed.find?_put, if_pos hname.symm]
    rw [runFrom_decode_heldIn, Surroundings.load_of_loaded hfind]
    exact ⟨_, rfl⟩

/-- Two paths that lead to the file: neither what came before nor the order is seen. -/
theorem outcome_loadedBy_oneFile :
    standard.IsBuiltin ∧
      standard.outcome oneFile (standard.loadedBy oneFile .empty [heldIn "a.tsv"])
          (heldIn "file://a.tsv") =
        standard.outcome oneFile .empty (heldIn "file://a.tsv") ∧
      (Tagger.ofValue standard oneFile
        (.object [("A", heldIn "a.tsv"), ("B", heldIn "file://a.tsv")])).isOk = true ∧
      (Tagger.ofValue standard oneFile
        (.object [("B", heldIn "file://a.tsv"), ("A", heldIn "a.tsv")])).isOk = true := by
  obtain ⟨loaded, hfirst, hthen⟩ := runFrom_decode_oneFile
  obtain ⟨f, hf⟩ := hfirst "a.tsv" (by decide)
  obtain ⟨g, hg⟩ := hfirst "file://a.tsv" (by decide)
  obtain ⟨g', hg'⟩ := hthen "file://a.tsv" (by decide)
  have howns : ∀ m ∈ [("A", heldIn "a.tsv"), ("B", heldIn "file://a.tsv")],
      ∃ f, standard.outcome oneFile .empty m.2 = .ok f := by
    intro m hm
    simp only [List.mem_cons, List.not_mem_nil, or_false] at hm
    rcases hm with rfl | rfl
    · exact ⟨f, congrArg Prod.fst hf⟩
    · exact ⟨g, congrArg Prod.fst hg⟩
  have haccepted : (Tagger.ofValue standard oneFile
      (.object [("A", heldIn "a.tsv"), ("B", heldIn "file://a.tsv")])).isOk = true := by
    show (runFrom (Tagger.decodeMembers standard oneFile .empty _) .empty).1.isOk = true
    rw [Tagger.decodeMembers_cons_ok hf, Tagger.decodeMembers_cons_ok hg']
    rfl
  refine ⟨isBuiltin_standard, ?_, haccepted, ?_⟩
  · rcases (outcome_loadedBy isBuiltin_standard).1 [heldIn "a.tsv"] (heldIn "file://a.tsv") with
      h | ⟨fault, h, -⟩
    · exact h
    · rw [outcome, hg] at h
      cases h
  · rcases (outcome_loadedBy isBuiltin_standard).2 _ _ (List.Perm.swap _ _ []) haccepted with
      h | ⟨before, m, after, fault, hm, hfault, -⟩
    · exact h
    · obtain ⟨f, hf⟩ := howns m (hm ▸ List.mem_append_right before List.mem_cons_self)
      rw [hf] at hfault
      cases hfault

/-- A path that goes on after the file: it fails by itself and succeeds over the file. So it
matters which of two institutions comes first. -/
theorem outcome_trailing_slash :
    standard.outcome oneFile .empty (heldIn "a.tsv/") =
        .error (.holdings "a.tsv/" (.file .notDirectory)) ∧
      (standard.outcome oneFile (standard.loadedBy oneFile .empty [heldIn "a.tsv"])
        (heldIn "a.tsv/")).isOk = true ∧
      (Tagger.ofValue standard oneFile
        (.object [("A", heldIn "a.tsv"), ("B", heldIn "a.tsv/")])).isOk = true ∧
      (Tagger.ofValue standard oneFile
        (.object [("B", heldIn "a.tsv/"), ("A", heldIn "a.tsv")])).isOk = false := by
  obtain ⟨loaded, hfirst, hthen⟩ := runFrom_decode_oneFile
  obtain ⟨f, hf⟩ := hfirst "a.tsv" (by decide)
  obtain ⟨g, hg⟩ := hthen "a.tsv/" (by decide)
  have hfault : runFrom (standard.decode oneFile (heldIn "a.tsv/")) .empty =
      (.error (.holdings "a.tsv/" (.file .notDirectory)), .empty) := by
    rw [runFrom_decode_heldIn, Surroundings.load_of_fault (Keyed.find?_empty _) (by rfl)]
    rfl
  refine ⟨congrArg Prod.fst hfault, ?_, ?_, ?_⟩
  · rw [outcome, loadedBy, List.foldl_cons, hf]
    show (runFrom (standard.decode oneFile (heldIn "a.tsv/")) loaded).1.isOk = true
    rw [hg]
    rfl
  · show (runFrom (Tagger.decodeMembers standard oneFile .empty _) .empty).1.isOk = true
    rw [Tagger.decodeMembers_cons_ok hf, Tagger.decodeMembers_cons_ok hg]
    rfl
  · show (runFrom (Tagger.decodeMembers standard oneFile .empty _) .empty).1.isOk = false
    rw [Tagger.decodeMembers_cons_error hfault]
    rfl

end Constructors

end Holdings
