import Holdings.Proofs.Cache
import Holdings.Proofs.Requests
/-!
# The first fault counts

The nodes of a tree are looked at in their order, each over what those before it have loaded. A node
may be bad by itself: it has the wrong shape, or a file it asks for cannot be had (`Request.Bad`).
The tree is a filter if no node is bad. If one is, then the fault is that of the first one, whatever
comes after it, and what has been loaded by then stays (`Constructors.decode_first_fault`).
-/

namespace Holdings

open Json (Value)
open Decoding

namespace Request

/-! ## Bad nodes -/

section

variable (kinds : String → Option Builtin) (s : Surroundings)

/-- The files with holdings that a node asks for. -/
def sourcesOf (node : Value) : List String :=
  match ofNode kinds node with
  | .ok q => q.sources
  | .error _ => []

/-- What is wrong with a node by itself over what is loaded: its shape, a file with identifiers that
cannot be read, or a file with holdings that is missing. The files with holdings are told that the
node loads before its fault shows. -/
inductive Bad (loaded : Cache) (node : Value) : List String → Fault → Prop
  | misshapen {fault : Fault} (h : ofNode kinds node = .error fault) : Bad loaded node [] fault
  | unreadable {kind : Builtin} {name : String} {f : FileFault}
      (h : ofNode kinds node = .ok (.list kind name))
      (hf : s.files.readText (s.config.resolve name) = .error f) :
      Bad loaded node []
        (.invalidFilter none (.unreadable kind.name (s.config.resolve name) f))
  | missing {before : List String} {name : String} {after : List String} {mid : Cache}
      {fault : Fault} (h : ofNode kinds node = .ok (.holdings (before ++ name :: after)))
      (hbefore : s.Loads loaded before mid) (hname : s.Missing mid name fault) :
      Bad loaded node before fault

/-- Nodes one after the other, none of which is bad over what those before it have loaded. -/
inductive Passes : Cache → List Value → Cache → Prop
  | nothing (loaded : Cache) : Passes loaded [] loaded
  | node {loaded mid last : Cache} {node : Value} {nodes : List Value}
      (hgood : ∀ names fault, ¬ Bad kinds s loaded node names fault)
      (hloads : s.Loads loaded (sourcesOf kinds node) mid) (hrest : Passes mid nodes last) :
      Passes loaded (node :: nodes) last

variable {kinds} {s} {loaded mid last : Cache} {node : Value} {fault : Fault}

theorem Bad.exists_loads {names : List String} (h : Bad kinds s loaded node names fault) :
    ∃ last, s.Loads loaded names last := by
  cases h with
  | misshapen | unreadable => exact ⟨loaded, .nothing loaded⟩
  | missing _ hbefore _ => exact ⟨_, hbefore⟩

/-- Looking at a node fails if the node is bad, and only then. -/
theorem runFrom_inspect_eq_error_iff :
    runFrom (inspect kinds s node) loaded = (.error fault, last) ↔
      ∃ names, Bad kinds s loaded node names fault ∧ s.Loads loaded names last := by
  constructor
  · intro h
    unfold inspect at h
    split at h
    · next q hq =>
      cases q with
      | nothing | filters _ => cases h
      | list kind name =>
          rw [run] at h
          split at h
          · cases h
          · next f hf =>
            cases h
            exact ⟨[], .unreadable hq hf, .nothing _⟩
      | holdings sources =>
          obtain ⟨before, name, after, rfl, hbefore, hname⟩ :=
            Surroundings.runFrom_loadEach_eq_error_iff.mp h
          exact ⟨before, .missing hq hbefore hname, hbefore⟩
    · next hnode =>
      cases h
      exact ⟨[], .misshapen hnode, .nothing _⟩
  · rintro ⟨names, hbad, hlast⟩
    rw [inspect]
    cases hbad with
    | misshapen h =>
        cases hlast
        rw [h]
        rfl
    | unreadable h hf =>
        cases hlast
        rw [h]
        dsimp only [run]
        rw [hf]
        rfl
    | missing h hbefore hname =>
        cases hbefore.unique hlast
        rw [h]
        exact Surroundings.runFrom_loadEach_eq_error_iff.mpr ⟨_, _, _, rfl, hbefore, hname⟩

theorem runFrom_inspect_eq_ok_iff :
    runFrom (inspect kinds s node) loaded = (.ok (), last) ↔
      (∀ names fault, ¬ Bad kinds s loaded node names fault) ∧
        s.Loads loaded (sourcesOf kinds node) last := by
  have hloads : ∀ {last}, runFrom (inspect kinds s node) loaded = (.ok (), last) →
      s.Loads loaded (sourcesOf kinds node) last := by
    intro last h
    unfold inspect at h
    split at h
    · next q hq =>
      rw [sourcesOf, hq]
      cases q with
      | nothing | filters _ =>
          cases h
          exact .nothing _
      | list kind name =>
          rw [run] at h
          split at h
          · cases h
            exact .nothing _
          · cases h
      | holdings sources => exact Surroundings.runFrom_loadEach_eq_ok_iff.mp h
    · cases h
  constructor
  · refine fun h => ⟨fun names fault hbad => ?_, hloads h⟩
    obtain ⟨last', hl⟩ := hbad.exists_loads
    rw [runFrom_inspect_eq_error_iff.mpr ⟨names, hbad, hl⟩] at h
    cases h
  · rintro ⟨hgood, hl⟩
    cases hrun : runFrom (inspect kinds s node) loaded with
    | mk outcome last' =>
      cases outcome with
      | ok _ => rw [(hloads hrun).unique hl]
      | error fault =>
          obtain ⟨names, hbad, -⟩ := runFrom_inspect_eq_error_iff.mp hrun
          exact absurd hbad (hgood names fault)

theorem runFrom_forM_inspect_eq_ok_iff {nodes : List Value} :
    runFrom (forM nodes (inspect kinds s)) loaded = (.ok (), last) ↔
      Passes kinds s loaded nodes last := by
  constructor
  · intro h
    induction nodes generalizing loaded with
    | nil =>
        cases h
        exact .nothing _
    | cons node nodes ih =>
        rw [List.forM_cons] at h
        obtain ⟨_, mid, hnode, hrest⟩ := runFrom_bind_eq_ok_iff.mp h
        obtain ⟨hgood, hloads⟩ := runFrom_inspect_eq_ok_iff.mp hnode
        exact .node hgood hloads (ih hrest)
  · intro h
    induction h with
    | nothing loaded => rfl
    | node hgood hloads _ ih =>
        rw [List.forM_cons, runFrom_bind_ok (runFrom_inspect_eq_ok_iff.mpr ⟨hgood, hloads⟩), ih]

theorem Passes.loads {nodes : List Value} (h : Passes kinds s loaded nodes last) :
    s.Loads loaded (nodes.flatMap (sourcesOf kinds)) last := by
  induction h with
  | nothing loaded => exact .nothing loaded
  | node _ hloads _ ih => exact hloads.append ih

theorem Passes.exists_good {nodes : List Value} (h : Passes kinds s loaded nodes last)
    (hnode : node ∈ nodes) : ∃ mid, ∀ names fault, ¬ Bad kinds s mid node names fault := by
  induction h with
  | nothing => cases hnode
  | node hgood _ _ ih =>
      rcases List.mem_cons.mp hnode with rfl | hin
      · exact ⟨_, hgood⟩
      · exact ih hin

end

end Request

namespace Constructors

open Request

variable {cs : Constructors} {kinds : String → Option Builtin} {s : Surroundings}

theorem runFrom_decode_eq_ok_iff (hcs : cs.Knows kinds) {loaded last : Cache} {node : Value} :
    (∃ f, runFrom (cs.decode s node) loaded = (.ok f, last)) ↔
      Passes kinds s loaded (nodes kinds node) last := by
  rw [← runFrom_effect_eq_ok_iff, effect_decode hcs, runFrom_forM_inspect_eq_ok_iff]

theorem runFrom_decode_eq_error_iff (hcs : cs.Knows kinds) {loaded last : Cache} {node : Value}
    {fault : Fault} :
    runFrom (cs.decode s node) loaded = (.error fault, last) ↔
      ∃ before bad after mid names, nodes kinds node = before ++ bad :: after ∧
        Passes kinds s loaded before mid ∧ Bad kinds s mid bad names fault ∧
        s.Loads mid names last := by
  rw [← runFrom_effect_eq_error_iff, effect_decode hcs, runFrom_forM_eq_error_iff]
  constructor
  · rintro ⟨before, bad, after, mid, hnodes, hbefore, hbad⟩
    obtain ⟨names, hbad, hnames⟩ := runFrom_inspect_eq_error_iff.mp hbad
    exact ⟨before, bad, after, mid, names, hnodes, runFrom_forM_inspect_eq_ok_iff.mp hbefore, hbad,
      hnames⟩
  · rintro ⟨before, bad, after, mid, names, hnodes, hbefore, hbad, hnames⟩
    exact ⟨before, bad, after, mid, hnodes, runFrom_forM_inspect_eq_ok_iff.mpr hbefore,
      runFrom_inspect_eq_error_iff.mpr ⟨names, hbad, hnames⟩⟩

/-- A node whose name is not known is bad, whatever is loaded. -/
theorem bad_of_find?_eq_none (hcs : cs.Knows kinds) {name : String} (h : cs.find? name = none)
    (loaded : Cache) (setting : Value) :
    Bad kinds s loaded (.object [(name, setting)]) [] (.unknownFilter name) := by
  rw [hcs name, Option.map_eq_none_iff] at h
  exact .misshapen (by rw [ofNode, h])

/-- A tree is a filter if and only if none of its nodes is bad, and otherwise its fault is that of
the first bad node, each node being looked at over what those before it have loaded. After nodes
that are good, which may be all of them, and after the first files of a bad one, what was loaded at
the start is still there, and besides it one registry for each path among their files that is new.
So a tree with an unknown name anywhere is never a filter. -/
theorem decode_first_fault (hcs : cs.Knows kinds) (s : Surroundings) (loaded : Cache)
    (node : Value) :
    (∀ last, (∃ f, runFrom (cs.decode s node) loaded = (.ok f, last)) ↔
      Passes kinds s loaded (nodes kinds node) last) ∧
    (∀ fault last, runFrom (cs.decode s node) loaded = (.error fault, last) ↔
      ∃ before bad after mid names, nodes kinds node = before ++ bad :: after ∧
        Passes kinds s loaded before mid ∧ Bad kinds s mid bad names fault ∧
        s.Loads mid names last) ∧
    (∀ before mid names last, Passes kinds s loaded before mid → s.Loads mid names last →
      s.Gains loaded (before.flatMap (sourcesOf kinds) ++ names) last) ∧
    ∀ name setting, .object [(name, setting)] ∈ nodes kinds node → cs.find? name = none →
      ∃ fault, cs.outcome s loaded node = .error fault := by
  refine ⟨fun last => runFrom_decode_eq_ok_iff hcs,
    fun fault last => runFrom_decode_eq_error_iff hcs,
    fun before mid names last hbefore hnames => (hbefore.loads.append hnames).gains,
    fun name setting hnode hname => ?_⟩
  cases hrun : runFrom (cs.decode s node) loaded with
  | mk outcome last =>
    cases outcome with
    | error fault => exact ⟨fault, congrArg Prod.fst hrun⟩
    | ok f =>
        obtain ⟨mid, hgood⟩ := ((runFrom_decode_eq_ok_iff hcs).mp ⟨f, hrun⟩).exists_good hnode
        exact absurd (bad_of_find?_eq_none hcs hname mid setting) (hgood _ _)

/-! ### A tree with two bad nodes -/

/-- A file, then the same file under another path together with one that is not there, and then a
name that is not known. -/
def faulty : Value :=
  .object [("and", .array [heldIn "a.tsv", heldInAll ["a.tsv/", "b.tsv"],
    .object [("foo", .object [])]])]

theorem nodes_faulty : nodes kindOf? faulty =
    [faulty, heldIn "a.tsv", heldInAll ["a.tsv/", "b.tsv"], .object [("foo", .object [])]] := by
  have hand : innerNodes kindOf? faulty =
      [heldIn "a.tsv", heldInAll ["a.tsv/", "b.tsv"], .object [("foo", .object [])]] := rfl
  have hfile : innerNodes kindOf? (heldIn "a.tsv") = [] := rfl
  have hfiles : innerNodes kindOf? (heldInAll ["a.tsv/", "b.tsv"]) = [] := rfl
  have hfoo : innerNodes kindOf? (.object [("foo", .object [])]) = [] := rfl
  simp only [nodes_eq, hand, hfile, hfiles, hfoo, List.flatMap_cons, List.flatMap_nil,
    List.append_nil, List.cons_append, List.nil_append]

/-- The fault is that of the missing file, not that of the name behind it, and what the first file
holds is there. -/
theorem decode_first_fault_faulty :
    standard.Knows kindOf? ∧
      (∃ last, runFrom (standard.decode oneFile faulty) .empty =
          (.error (.holdings "b.tsv" (.file .notFound)), last) ∧
        oneFile.Gains .empty ["a.tsv", "a.tsv/"] last) ∧
      ∃ fault, standard.outcome oneFile .empty faulty = .error fault := by
  obtain ⟨-, hfails, hgains, hunknown⟩ :=
    decode_first_fault knows_standard oneFile .empty faulty
  obtain ⟨d, hd⟩ := detect_oneFile
  have hcached : (Keyed.empty.put (Path.components "a.tsv") d.reading.registry : Cache).find?
      (oneFile.key "a.tsv/") = some d.reading.registry := by
    rw [Keyed.find?_put]
    rfl
  have hfile : oneFile.Loads .empty ["a.tsv"]
      (Keyed.empty.put (Path.components "a.tsv") d.reading.registry) :=
    .read (Keyed.find?_empty _) hd (.nothing _)
  have hsame := Surroundings.Loads.cached hcached (.nothing _)
  have hpasses : Passes kindOf? oneFile .empty [faulty, heldIn "a.tsv"]
      (Keyed.empty.put (Path.components "a.tsv") d.reading.registry) := by
    have hand : runFrom (inspect kindOf? oneFile faulty) .empty = (.ok (), .empty) := rfl
    have hheld : runFrom (inspect kindOf? oneFile (heldIn "a.tsv")) .empty = (.ok (), _) :=
      Surroundings.runFrom_loadEach_eq_ok_iff.mpr hfile
    obtain ⟨hgoodAnd, hloadsAnd⟩ := runFrom_inspect_eq_ok_iff.mp hand
    obtain ⟨hgoodHeld, hloadsHeld⟩ := runFrom_inspect_eq_ok_iff.mp hheld
    exact .node hgoodAnd hloadsAnd (.node hgoodHeld hloadsHeld (.nothing _))
  have hmissing : oneFile.Missing (Keyed.empty.put (Path.components "a.tsv") d.reading.registry)
      "b.tsv" (.holdings "b.tsv" (.file .notFound)) :=
    ⟨by rw [Keyed.find?_put]; rfl, rfl⟩
  have hrun := (hfails _ _).mpr ⟨[faulty, heldIn "a.tsv"], heldInAll ["a.tsv/", "b.tsv"],
    [.object [("foo", .object [])]], _, ["a.tsv/"], nodes_faulty, hpasses,
    .missing rfl hsame hmissing, hsame⟩
  exact ⟨knows_standard, ⟨_, hrun, hgains _ _ _ _ hpasses hsame⟩,
    hunknown "foo" (.object []) (by simp [nodes_faulty]) rfl⟩

end Constructors

end Holdings
