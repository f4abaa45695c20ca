import Holdings.FileTree
/-!
# Spellings of a path

Two spellings with the same components differ in parts that say nothing. On a walk such a part
only asks for a directory in the place that has been reached, so of two spellings of a file both
bring its bytes, unless one goes on after the file's name or is too long
(`FileTree.read_respelled`). A spelling with such parts at its end is no way to the file, although
its components are those of one that is.
-/

namespace Holdings

/-! ## The characters of a path are those of its parts -/

namespace Text

variable {sep c : Char} {s : List Char}

theorem mem_of_mem_split {part : List Char} (hp : part ∈ split sep s) (hc : c ∈ part) :
    c ∈ s := by
  induction s generalizing part with
  | nil =>
      rw [split, List.mem_singleton] at hp
      rw [hp] at hc
      cases hc
  | cons d s ih =>
      rw [split] at hp
      split at hp
      · rcases List.mem_cons.mp hp with rfl | hp
        · cases hc
        · exact List.mem_cons_of_mem _ (ih hp hc)
      · split at hp
        · next h => exact absurd h (split_ne_nil sep s)
        · next p ps h =>
          rcases List.mem_cons.mp hp with rfl | hp
          · rcases List.mem_cons.mp hc with rfl | hc
            · exact List.mem_cons_self
            · exact List.mem_cons_of_mem _ (ih (h ▸ List.mem_cons_self) hc)
          · exact List.mem_cons_of_mem _ (ih (h ▸ List.mem_cons_of_mem _ hp) hc)

theorem exists_mem_split (hc : c ∈ s) (hs : c ≠ sep) : ∃ part ∈ split sep s, c ∈ part := by
  induction s with
  | nil => cases hc
  | cons d s ih =>
      rw [split]
      rcases List.mem_cons.mp hc with rfl | hc
      · rw [if_neg hs]
        split
        · exact ⟨_, List.mem_cons_self, List.mem_cons_self⟩
        · exact ⟨_, List.mem_cons_self, List.mem_cons_self⟩
      · obtain ⟨part, hp, hin⟩ := ih hc
        split
        · exact ⟨part, List.mem_cons_of_mem _ hp, hin⟩
        · split
          · next h => exact absurd h (split_ne_nil sep s)
          · next p ps h =>
            rcases List.mem_cons.mp (h ▸ hp) with rfl | hp
            · exact ⟨_, List.mem_cons_self, List.mem_cons_of_mem _ hin⟩
            · exact ⟨part, List.mem_cons_of_mem _ hp, hin⟩

/-- A text begins with an empty part only where the separator stands, or if it is empty. -/
theorem head?_eq_of_split_head? (h : (split sep s).head? = some []) :
    s = [] ∨ s.head? = some sep := by
  cases s with
  | nil => exact Or.inl rfl
  | cons c s =>
      rw [split] at h
      split at h
      · next hc => exact Or.inr (congrArg some hc)
      · split at h <;> cases h

end Text

namespace Path

variable {p q : String}

theorem isIdle_eq_true_iff {part : String} : isIdle part = true ↔ part = "" ∨ part = "." := by
  simp [isIdle]

/-- A path with the components of the empty path is empty. -/
theorem eq_empty_of_components (h : components p = components "") : p = "" := by
  have hnames : (components p).names = [] := by rw [h]; rfl
  have hdot : ¬ (parts p).head? = some "." := of_decide_eq_false (congrArg Components.dotted h)
  have habs : ¬ p.toList.head? = some '/' :=
    of_decide_eq_false (congrArg Components.absolute h)
  cases hs : Text.split '/' p.toList with
  | nil => exact absurd hs (Text.split_ne_nil _ _)
  | cons part rest =>
      have hp : parts p = String.ofList part :: rest.map String.ofList := by
        rw [parts, hs, List.map_cons]
      have hidle : isIdle (String.ofList part) = true := by
        simp only [components, hp] at hnames
        have := List.filter_eq_nil_iff.mp hnames _ List.mem_cons_self
        simpa using this
      rcases isIdle_eq_true_iff.mp hidle with he | hd
      · have hpart : part = [] := by
          have := congrArg String.toList he
          simpa using this
        have hhead : (Text.split '/' p.toList).head? = some [] := by rw [hs, hpart]; rfl
        rcases Text.head?_eq_of_split_head? hhead with hnil | hslash
        · exact String.toList_inj.mp hnil
        · exact absurd hslash habs
      · rw [hp, hd] at hdot
        exact absurd rfl hdot

/-- A character other than the slash and the dot stands in both or in neither of two paths with
the same components. -/
theorem mem_of_components {c : Char} (hs : c ≠ '/') (hd : c ≠ '.')
    (h : components p = components q) (hc : c ∈ p.toList) : c ∈ q.toList := by
  obtain ⟨part, hp, hin⟩ := Text.exists_mem_split hc hs
  have hbusy : isIdle (String.ofList part) = false := by
    rw [Bool.eq_false_iff]
    intro hi
    rcases isIdle_eq_true_iff.mp hi with he | he
    · have := congrArg String.toList he
      simp only [String.toList_ofList] at this
      rw [this] at hin
      cases hin
    · have := congrArg String.toList he
      simp only [String.toList_ofList] at this
      rw [this] at hin
      exact hd (List.mem_singleton.mp hin)
  have hname : String.ofList part ∈ (components p).names :=
    List.mem_filter.mpr ⟨List.mem_map_of_mem hp, by rw [hbusy]; rfl⟩
  rw [h] at hname
  obtain ⟨part', hp', he⟩ := List.mem_map.mp (List.mem_filter.mp hname).1
  have hpart : part' = part := by
    have := congrArg String.toList he
    simpa using this
  exact Text.mem_of_mem_split (hpart ▸ hp') hin

end Path

namespace FileTree

variable {t : FileTree} {bytes : List UInt8}

/-! ## Walks -/

/-- The parts that say something. -/
def busy (parts : List String) : List String := parts.filter fun part => !Path.isIdle part

section

variable {place parts : List String} {part : String}

theorem busy_cons_of_idle (h : Path.isIdle part = true) : busy (part :: parts) = busy parts :=
  List.filter_cons_of_neg (by rw [h]; decide)

theorem busy_cons_of_not_idle (h : ¬ Path.isIdle part = true) :
    busy (part :: parts) = part :: busy parts :=
  List.filter_cons_of_pos (by rw [Bool.eq_false_iff.mpr h]; rfl)

/-- Where a part that says something leads from a directory. -/
def nextPlace (place : List String) (part : String) : Except FileFault (List String) :=
  if part = ".." then .ok place.dropLast
  else if nameLimit < part.utf8ByteSize then .error .nameTooLong
  else .ok (place ++ [part])

theorem walk_cons_of_idle (hi : t.item? place = some .directory) (h : Path.isIdle part = true) :
    t.walk place (part :: parts) = t.walk place parts := by
  simp only [walk, hi, if_pos h]

theorem walk_cons_of_not_idle (hi : t.item? place = some .directory)
    (h : ¬ Path.isIdle part = true) :
    t.walk place (part :: parts) = (nextPlace place part).bind (t.walk · parts) := by
  simp only [walk, hi, if_neg h, nextPlace]
  split
  · rfl
  · split <;> rfl

/-- A walk that ends at a file starts somewhere. -/
theorem item?_ne_none_of_walk (h : t.walk place parts = .ok bytes) : t.item? place ≠ none := by
  intro hn
  cases parts <;> simp [walk, hn] at h

end

/-- A walk to a file is not held up by parts that say nothing. -/
theorem walk_busy {place parts : List String} (h : t.walk place parts = .ok bytes) :
    t.walk place (busy parts) = .ok bytes := by
  induction parts generalizing place with
  | nil => exact h
  | cons part parts ih =>
      cases hi : t.item? place with
      | none => exact absurd hi (item?_ne_none_of_walk h)
      | some item =>
          cases item with
          | file b => simp [walk, hi] at h
          | directory =>
              by_cases hidle : Path.isIdle part = true
              · rw [walk_cons_of_idle hi hidle] at h
                rw [busy_cons_of_idle hidle]
                exact ih h
              · rw [walk_cons_of_not_idle hi hidle] at h
                rw [busy_cons_of_not_idle hidle, walk_cons_of_not_idle hi hidle]
                cases hn : nextPlace place part with
                | error fault =>
                    rw [hn] at h
                    cases h
                | ok onward =>
                    rw [hn] at h
                    exact ih h

/-- Parts that say nothing can only keep a walk from a file by asking it to be a directory. -/
theorem walk_of_busy {place parts : List String} (h : t.walk place (busy parts) = .ok bytes) :
    t.walk place parts = .ok bytes ∨ t.walk place parts = .error .notDirectory := by
  induction parts generalizing place with
  | nil => exact Or.inl h
  | cons part parts ih =>
      cases hi : t.item? place with
      | none => exact absurd hi (item?_ne_none_of_walk h)
      | some item =>
          cases item with
          | file b => exact Or.inr (by simp only [walk, hi])
          | directory =>
              by_cases hidle : Path.isIdle part = true
              · rw [busy_cons_of_idle hidle] at h
                rw [walk_cons_of_idle hi hidle]
                exact ih h
              · rw [busy_cons_of_not_idle hidle, walk_cons_of_not_idle hi hidle] at h
                rw [walk_cons_of_not_idle hi hidle]
                cases hn : nextPlace place part with
                | error fault =>
                    rw [hn] at h
                    cases h
                | ok onward =>
                    rw [hn] at h
                    exact ih h

/-! ## Reading -/

/-- Where the walk along a path starts. -/
def start (t : FileTree) (path : String) : List String :=
  if Path.isAbsolute path then [] else t.working

theorem read_eq_ok_iff {path : String} :
    t.read path = .ok bytes ↔
      path ≠ "" ∧ '\x00' ∉ path.toList ∧ ¬ pathLimit < path.utf8ByteSize ∧
        t.walk (t.start path) (Path.parts path) = .ok bytes := by
  unfold read
  split
  · next h =>
    have he : path = "" := String.isEmpty_iff.mp h
    simp [he]
  · next h =>
    have he : path ≠ "" := fun e => h (String.isEmpty_iff.mpr e)
    split
    · next hz => simp [List.contains_iff_mem.mp hz]
    · next hz =>
      have hz' : '\x00' ∉ path.toList := fun hm => hz (List.contains_iff_mem.mpr hm)
      split
      · next hl => simp [hl]
      · next hl =>
        simp only [he, hz', hl, ne_eq, not_false_eq_true, true_and]
        rfl

/-- If one spelling of a path leads to a file, another one brings the same bytes, or it is too
long, or it goes on where only the file is left. -/
theorem read_respelled {p q : String} (hp : t.read p = .ok bytes)
    (h : Path.components p = Path.components q) :
    t.read q = .ok bytes ∨ t.read q = .error .notDirectory ∨ t.read q = .error .nameTooLong := by
  obtain ⟨hne, hnul, -, hwalk⟩ := read_eq_ok_iff.mp hp
  have hqne : q ≠ "" := by
    intro he
    rw [he] at h
    exact hne (Path.eq_empty_of_components h)
  have hqnul : '\x00' ∉ q.toList := by
    intro hm
    exact hnul (Path.mem_of_components (by decide) (by decide) h.symm hm)
  have hstart : t.start p = t.start q := by
    have habs : Path.isAbsolute p = Path.isAbsolute q := congrArg Path.Components.absolute h
    rw [start, start, habs]
  have hbusy : busy (Path.parts p) = busy (Path.parts q) := congrArg Path.Components.names h
  by_cases hlong : pathLimit < q.utf8ByteSize
  · refine Or.inr (Or.inr ?_)
    simp [read, hqne, hqnul, hlong]
  · have hw := walk_busy hwalk
    rw [hstart, hbusy] at hw
    rcases walk_of_busy hw with hq | hq
    · exact Or.inl (read_eq_ok_iff.mpr ⟨hqne, hqnul, hlong, hq⟩)
    · refine Or.inr (Or.inl ?_)
      simpa [read, hqne, hqnul, hlong, start] using hq

end FileTree

end Holdings
