import Holdings.Filter.Setting
/-!
# What can be read as a setting

Reading a setting asks each of its members for a shape: strings, a string or null, a truth value.
This file says which values have these shapes, and for the places of holdings what each member
sets. A setting on holdings that is written as an array is read like the object that has its items
under the names of the fields, in their order (`readPositions_eq_ok_iff`).
-/

namespace Holdings

open Json

theorem bind_eq_ok_iff {ε α β : Type} {x : Except ε α} {f : α → Except ε β} {b : β} :
    x >>= f = .ok b ↔ ∃ a, x = .ok a ∧ f a = .ok b := by
  cases x with
  | error e => exact ⟨nofun, nofun⟩
  | ok a =>
      refine ⟨fun h => ⟨a, rfl, h⟩, ?_⟩
      rintro ⟨a', ha, h⟩
      cases ha
      exact h

theorem map_eq_ok_iff {ε α β : Type} {x : Except ε α} {f : α → β} {b : β} :
    x.map f = .ok b ↔ ∃ a, x = .ok a ∧ f a = b := by
  cases x with
  | error e => exact ⟨nofun, nofun⟩
  | ok a =>
      refine ⟨fun h => ⟨a, rfl, Except.ok.inj h⟩, ?_⟩
      rintro ⟨a', ha, rfl⟩
      cases ha
      rfl

/-! ## Values by their shape -/

/-- What may be missing, as it is written: null, or the value itself. -/
def Json.Value.ofOption {α : Type} (write : α → Value) : Option α → Value
  | none => .null
  | some a => write a

theorem stringOf_eq_ok_iff {v : Value} {t : String} : stringOf v = .ok t ↔ v = .string t := by
  cases v with
  | string t' => exact ⟨fun h => congrArg Value.string (Except.ok.inj h), fun h => by cases h; rfl⟩
  | null | bool _ | number _ | array _ | object _ => exact ⟨nofun, nofun⟩

theorem flagOf_eq_ok_iff {v : Value} {b : Bool} : flagOf v = .ok b ↔ v = .bool b := by
  cases v with
  | bool b' => exact ⟨fun h => congrArg Value.bool (Except.ok.inj h), fun h => by cases h; rfl⟩
  | null | number _ | string _ | array _ | object _ => exact ⟨nofun, nofun⟩

@[simp] theorem stringsOf_ofTexts (ts : List String) : stringsOf (.ofTexts ts) = .ok ts := by
  show (ts.map Value.string).mapM stringOf = .ok ts
  induction ts with
  | nil => rfl
  | cons t ts ih => rw [List.map_cons, List.mapM_cons, ih]; rfl

theorem eq_map_of_mapM_stringOf {items : List Value} {ts : List String}
    (h : items.mapM stringOf = .ok ts) : items = ts.map Value.string := by
  induction items generalizing ts with
  | nil =>
      cases h
      rfl
  | cons v items ih =>
      rw [List.mapM_cons] at h
      obtain ⟨t, ht, h⟩ := bind_eq_ok_iff.mp h
      obtain ⟨ts, hts, h⟩ := bind_eq_ok_iff.mp h
      cases h
      rw [List.map_cons, stringOf_eq_ok_iff.mp ht, ih hts]

theorem stringsOf_eq_ok_iff {v : Value} {ts : List String} :
    stringsOf v = .ok ts ↔ v = .ofTexts ts := by
  refine ⟨fun h => ?_, fun h => h ▸ stringsOf_ofTexts ts⟩
  cases v with
  | array items => exact congrArg Value.array (eq_map_of_mapM_stringOf h)
  | null | bool _ | number _ | string _ | object _ => cases h

theorem eq_ofOption_of_optionalOf {α : Type} {read : Value → Except ShapeFault α}
    {write : α → Value} (hread : ∀ {v a}, read v = .ok a → v = write a) {v : Value}
    {o : Option α} (h : optionalOf read v = .ok o) : v = .ofOption write o := by
  cases v with
  | null =>
      cases h
      rfl
  | bool _ | number _ | string _ | array _ | object _ =>
      obtain ⟨a, ha, rfl⟩ := map_eq_ok_iff.mp h
      exact hread ha

/-! ## Arrays in the place of objects -/

/-- Fields in a row are read like members under their names, as long as each is the one that its
name finds. -/
theorem readPositions_eq_ok_iff {σ : Type} {all fields : List (SettingField σ)}
    (hfind : ∀ f ∈ fields, (all.find? fun g => g.name = f.name) = some f) {count : Nat}
    {s s' : σ} {items : List Value} :
    readPositions count s fields items = .ok s' ↔
      items.length ≤ fields.length ∧
        readSettings all s ((fields.map SettingField.name).zip items) = .ok s' := by
  induction fields generalizing items s with
  | nil =>
      cases items with
      | nil => exact ⟨fun h => ⟨Nat.le_refl _, h⟩, fun h => h.2⟩
      | cons v vs => exact ⟨nofun, fun h => absurd h.1 (Nat.not_succ_le_zero _)⟩
  | cons f fs ih =>
      cases items with
      | nil => exact ⟨fun h => ⟨Nat.zero_le _, h⟩, fun h => h.2⟩
      | cons v vs =>
          have hrest : ∀ g ∈ fs, (all.find? fun g' => g'.name = g.name) = some g :=
            fun g hg => hfind g (List.mem_cons_of_mem _ hg)
          rw [List.map_cons, List.zip_cons_cons, readPositions, readSettings]
          simp only [hfind f List.mem_cons_self, bind_eq_ok_iff, ih hrest, List.length_cons,
            Nat.add_le_add_iff_right]
          constructor
          · rintro ⟨next, hv, hlength, h⟩
            exact ⟨hlength, next, hv, h⟩
          · rintro ⟨hlength, next, hv, h⟩
            exact ⟨next, hv, hlength, h⟩

/-! ## Lists of identifiers -/

namespace IdentifierSetting

/-- What a member of such a setting may be, if `file` says what may stand for the file. -/
inductive IsMember (file : Value → Prop) : String × Value → Prop
  | list (ids : List String) : IsMember file ("list", .ofTexts ids)
  | file {v : Value} (h : file v) : IsMember file ("file", v)

/-- What such a setting may be: strings, or an object with such members. -/
inductive IsSetting (file : Value → Prop) : Value → Prop
  | texts (ids : List String) : IsSetting file (.ofTexts ids)
  | object {members : List (String × Value)} (h : ∀ m ∈ members, IsMember file m) :
      IsSetting file (.object members)

/-- The name of a file, or null. -/
def IsFileName (v : Value) : Prop := ∃ name : Option String, v = .ofOption .string name

theorem isMember_of_readSettings {setting setting' : IdentifierSetting}
    {members : List (String × Value)} (h : readSettings fields setting members = .ok setting') :
    ∀ m ∈ members, IsMember IsFileName m := by
  induction members generalizing setting with
  | nil => exact List.forall_mem_nil _
  | cons m ms ih =>
      obtain ⟨name, v⟩ := m
      rw [readSettings] at h
      split at h
      · next f hf =>
        obtain ⟨next, hv, hrest⟩ := bind_eq_ok_iff.mp h
        refine List.forall_mem_cons.mpr ⟨?_, ih hrest⟩
        obtain rfl : f.name = name := by simpa using List.find?_some hf
        -- Either of the two fields, and what it has read.
        have hmem := List.mem_of_find?_eq_some hf
        simp only [fields, List.mem_cons, List.not_mem_nil, or_false] at hmem
        rcases hmem with rfl | rfl
        · obtain ⟨ids, hids, -⟩ := bind_eq_ok_iff.mp hv
          obtain rfl := stringsOf_eq_ok_iff.mp hids
          exact .list ids
        · obtain ⟨o, ho, -⟩ := bind_eq_ok_iff.mp hv
          exact .file ⟨o, eq_ofOption_of_optionalOf stringOf_eq_ok_iff.mp ho⟩
      · cases h

theorem isSetting_of_ofValue {v : Value} {setting : IdentifierSetting}
    (h : ofValue v = .ok setting) : IsSetting IsFileName v := by
  cases v with
  | object members => exact .object (isMember_of_readSettings h)
  | null | bool _ | number _ | string _ | array _ => cases h

/-- Without a member for the file, no file is named. -/
theorem exists_readSettings_of_lists {members : List (String × Value)}
    (h : ∀ m ∈ members, IsMember (fun _ => False) m) (ids : List String) :
    ∃ ids', readSettings fields ⟨ids, none⟩ members = .ok ⟨ids', none⟩ := by
  induction members generalizing ids with
  | nil => exact ⟨ids, rfl⟩
  | cons m ms ih =>
      obtain ⟨hm, hms⟩ := List.forall_mem_cons.mp h
      cases hm with
      | list own =>
          obtain ⟨ids', hids'⟩ := ih hms own
          refine ⟨ids', ?_⟩
          show (do
            let next ← (do .ok { (⟨ids, none⟩ : IdentifierSetting) with
              list := ← stringsOf (.ofTexts own) })
            readSettings fields next ms) = _
          rw [stringsOf_ofTexts]
          exact hids'
      | file hv => exact hv.elim

end IdentifierSetting

/-! ## Places of holdings -/

namespace HoldingsSetting

/-- What a member sets. -/
inductive Sets : String × Value → HoldingsSetting → HoldingsSetting → Prop
  | file (path : Option String) {setting} :
      Sets ("file", .ofOption .string path) setting { setting with file := path }
  | files (paths : List String) {setting} :
      Sets ("files", .ofTexts paths) setting { setting with files := paths }
  | urls (urls : List String) {setting} :
      Sets ("urls", .ofTexts urls) setting { setting with urls := urls }
  | verbose (b : Option Bool) {setting} :
      Sets ("verbose", .ofOption .bool b) setting { setting with verbose := b }
  | compareByTitle (b : Bool) {setting} :
      Sets ("compare-by-title", .bool b) setting { setting with compareByTitle := b }

/-- One step of reading: a member that can be read sets one field, whatever was set before. -/
theorem exists_sets_of_readSettings {setting setting' : HoldingsSetting} {m : String × Value}
    {ms : List (String × Value)} (h : readSettings fields setting (m :: ms) = .ok setting') :
    ∃ next, Sets m setting next ∧ readSettings fields next ms = .ok setting' := by
  obtain ⟨name, v⟩ := m
  rw [readSettings] at h
  split at h
  · next f hf =>
    obtain ⟨next, hv, hrest⟩ := bind_eq_ok_iff.mp h
    refine ⟨next, ?_, hrest⟩
    obtain rfl : f.name = name := by simpa using List.find?_some hf
    have hmem := List.mem_of_find?_eq_some hf
    simp only [fields, List.mem_cons, List.not_mem_nil, or_false] at hmem
    rcases hmem with rfl | rfl | rfl | rfl | rfl
    · obtain ⟨path, hpath, hnext⟩ := bind_eq_ok_iff.mp hv
      cases hnext
      obtain rfl := eq_ofOption_of_optionalOf stringOf_eq_ok_iff.mp hpath
      exact .file path
    · obtain ⟨paths, hpaths, hnext⟩ := bind_eq_ok_iff.mp hv
      cases hnext
      obtain rfl := stringsOf_eq_ok_iff.mp hpaths
      exact .files paths
    · obtain ⟨urls, hurls, hnext⟩ := bind_eq_ok_iff.mp hv
      cases hnext
      obtain rfl := stringsOf_eq_ok_iff.mp hurls
      exact .urls urls
    · obtain ⟨b, hb, hnext⟩ := bind_eq_ok_iff.mp hv
      cases hnext
      obtain rfl := eq_ofOption_of_optionalOf flagOf_eq_ok_iff.mp hb
      exact .verbose b
    · obtain ⟨b, hb, hnext⟩ := bind_eq_ok_iff.mp hv
      cases hnext
      obtain rfl := flagOf_eq_ok_iff.mp hb
      exact .compareByTitle b
  · cases h

/-- What a member has to be that names a source. -/
inductive NamesSource : String × Value → Prop
  | file (path : String) : NamesSource ("file", .string path)
  | files {paths : List String} (h : paths ≠ []) : NamesSource ("files", .ofTexts paths)
  | urls {urls : List String} (h : urls ≠ []) : NamesSource ("urls", .ofTexts urls)

theorem sources_ne_nil_iff {setting : HoldingsSetting} :
    setting.sources ≠ [] ↔ setting.file ≠ none ∨ setting.files ≠ [] ∨ setting.urls ≠ [] := by
  simp only [sources, ne_eq, List.append_eq_nil_iff, Option.toList_eq_nil_iff,
    Classical.not_and_iff_not_or_not, or_assoc]

namespace Sets

variable {m : String × Value} {setting next : HoldingsSetting}

theorem urls_eq (h : Sets m setting next) (hm : m.1 ≠ "urls") : next.urls = setting.urls := by
  cases h with
  | urls urls => exact absurd rfl hm
  | file _ | files _ | verbose _ | compareByTitle _ => rfl

/-- Sources only come from members that name them. -/
theorem namesSource (h : Sets m setting next) (hnext : next.sources ≠ []) :
    setting.sources ≠ [] ∨ NamesSource m := by
  rw [sources_ne_nil_iff] at hnext ⊢
  cases h with
  | file path =>
      rcases hnext with hpath | hother
      · obtain ⟨path, rfl⟩ := Option.ne_none_iff_exists'.mp hpath
        exact .inr (.file path)
      · exact .inl (.inr hother)
  | files paths =>
      rcases hnext with hfile | hpaths | hurls
      · exact .inl (.inl hfile)
      · exact .inr (.files hpaths)
      · exact .inl (.inr (.inr hurls))
  | urls urls =>
      rcases hnext with hfile | hfiles | hurls
      · exact .inl (.inl hfile)
      · exact .inl (.inr (.inl hfiles))
      · exact .inr (.urls hurls)
  | verbose _ | compareByTitle _ => exact .inl hnext

end Sets

section

variable {setting setting' : HoldingsSetting} {members : List (String × Value)}

theorem urls_eq_of_readSettings (h : readSettings fields setting members = .ok setting')
    (hurls : "urls" ∉ members.map Prod.fst) : setting'.urls = setting.urls := by
  induction members generalizing setting with
  | nil =>
      cases h
      rfl
  | cons m ms ih =>
      obtain ⟨next, hset, hrest⟩ := exists_sets_of_readSettings h
      rw [List.map_cons, List.mem_cons, not_or] at hurls
      rw [ih hrest hurls.2, hset.urls_eq (Ne.symm hurls.1)]

/-- If the names are distinct, the addresses are those of the one member that has them. -/
theorem sets_of_readSettings (hnames : (members.map Prod.fst).Nodup)
    (h : readSettings fields setting members = .ok setting') :
    ∀ m ∈ members, ∃ before after, Sets m before after ∧
      (m.1 = "urls" → setting'.urls = after.urls) := by
  induction members generalizing setting with
  | nil => exact List.forall_mem_nil _
  | cons m ms ih =>
      obtain ⟨next, hset, hrest⟩ := exists_sets_of_readSettings h
      obtain ⟨hout, hnames⟩ := List.nodup_cons.mp hnames
      refine List.forall_mem_cons.mpr ⟨⟨setting, next, hset, fun hm => ?_⟩, ih hnames hrest⟩
      exact urls_eq_of_readSettings hrest (hm ▸ hout)

theorem exists_namesSource_of_readSettings
    (h : readSettings fields setting members = .ok setting') (hsources : setting'.sources ≠ []) :
    setting.sources ≠ [] ∨ ∃ m ∈ members, NamesSource m := by
  induction members generalizing setting with
  | nil =>
      cases h
      exact .inl hsources
  | cons m ms ih =>
      obtain ⟨next, hset, hrest⟩ := exists_sets_of_readSettings h
      rcases ih hrest with hnext | ⟨m', hm', hnames⟩
      · rcases hset.namesSource hnext with hsetting | hm
        · exact .inl hsetting
        · exact .inr ⟨m, List.mem_cons_self, hm⟩
      · exact .inr ⟨m', List.mem_cons_of_mem _ hm', hnames⟩

end

end HoldingsSetting

end Holdings
