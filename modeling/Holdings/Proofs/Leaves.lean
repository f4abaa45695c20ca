import Holdings.Proofs.Values
/-!
# What comes from the leaves

The machine that builds a tree takes its leaves from the tokens and makes up no others, but for
those that mark a place where the text breaks off. So a property that broken leaves have belongs to
all leaves of the tree if it belongs to all tokens (`Json.build_holds`). The property that is wanted
here is that a number is a whole one: it makes every value of a text without floating numbers one
that is read as it is written (`Json.Draft.Holds.readable`).
-/

namespace Holdings.Json

/-! ## A property of all leaves -/

/-- All leaves of a tree have a property, those left out that stand in the place of an ending. -/
inductive Draft.Holds (q : Leaf → Prop) : Draft → Prop where
  | leaf {l : Leaf} (h : q l) : Holds q (.leaf l)
  | list {items : List Draft} {ending : Ending} (h : ∀ d ∈ items, Holds q d) :
      Holds q (.list items ending)
  | object {members : List (Name × Draft)} {ending : Ending} (h : ∀ m ∈ members, Holds q m.2) :
      Holds q (.object members ending)

/-- All leaves in an open container have a property. -/
def Frame.Holds (q : Leaf → Prop) : Frame → Prop
  | .list items => ∀ d ∈ items, d.Holds q
  | .object members => ∀ m ∈ members, m.2.Holds q
  | .member members _ => ∀ m ∈ members, m.2.Holds q

/-- All leaves that are there after a move have a property. -/
def Move.Holds (q : Leaf → Prop) : Move → Prop
  | .go s => ∀ f ∈ s.frames, f.Holds q
  | .complete d => d.Holds q
  | .stop d => d.Holds q

/-- The leaf that a token brings has a property. -/
def Token.Holds (q : Leaf → Prop) : Token → Prop
  | .string l => q l
  | .word l => q l
  | _ => True

section

variable {q : Leaf → Prop}

theorem breakOff_holds {d : Draft} (hd : d.Holds q) {frames : List Frame}
    (hframes : ∀ f ∈ frames, f.Holds q) : (breakOff d frames).Holds q := by
  induction frames generalizing d with
  | nil => exact hd
  | cons f fs ih =>
      obtain ⟨hf, hfs⟩ := List.forall_mem_cons.mp hframes
      cases f with
      | list items =>
          refine ih (.list fun e he => ?_) hfs
          exact List.forall_mem_cons.mpr ⟨hd, hf⟩ e (List.mem_reverse.mp he)
      | object members =>
          exact ih (.object fun m hm => hf m (List.mem_reverse.mp hm)) hfs
      | member members name =>
          refine ih (.object fun m hm => ?_) hfs
          have hmem : m ∈ (name, d) :: members := List.mem_reverse.mp hm
          rcases List.mem_cons.mp hmem with rfl | hmem
          · exact hd
          · exact hf m hmem

theorem deliver_holds {d : Draft} (hd : d.Holds q) {frames : List Frame}
    (hframes : ∀ f ∈ frames, f.Holds q) : (deliver d frames).Holds q := by
  cases frames with
  | nil => exact hd
  | cons f fs =>
      obtain ⟨hf, hfs⟩ := List.forall_mem_cons.mp hframes
      cases f with
      | list items => exact List.forall_mem_cons.mpr ⟨List.forall_mem_cons.mpr ⟨hd, hf⟩, hfs⟩
      | object members => exact breakOff_holds hd hframes
      | member members name =>
          refine List.forall_mem_cons.mpr ⟨?_, hfs⟩
          exact List.forall_mem_cons.mpr ⟨hd, hf⟩

theorem putLeaf_holds {frames : List Frame} (hframes : ∀ f ∈ frames, f.Holds q) {l : Leaf}
    (hl : q l) : (putLeaf frames l).Holds q := by
  rw [putLeaf]
  split
  · exact breakOff_holds (.leaf hl) hframes
  · exact deliver_holds (.leaf hl) hframes

variable (hbroken : ∀ f, q (.broken f))

include hbroken

theorem endWith_holds (ending : Ending) {frames : List Frame}
    (hframes : ∀ f ∈ frames, f.Holds q) : (endWith ending frames).Holds q := by
  cases frames with
  | nil => exact .leaf (hbroken _)
  | cons f fs =>
      obtain ⟨hf, hfs⟩ := List.forall_mem_cons.mp hframes
      cases f with
      | list items => exact breakOff_holds (.list fun d hd => hf d (List.mem_reverse.mp hd)) hfs
      | object members | member members name =>
          exact breakOff_holds (.object fun m hm => hf m (List.mem_reverse.mp hm)) hfs

theorem break_holds {s : State} (hs : ∀ f ∈ s.frames, f.Holds q) (f : Fault) :
    (s.break (.broken f)).Holds q := by
  obtain ⟨p, frames⟩ := s
  cases p with
  | value | firstItem | colon => exact breakOff_holds (.leaf (hbroken f)) hs
  | nextItem | firstName | nextName | separator => exact endWith_holds hbroken _ hs

theorem needValue_holds {frames : List Frame} (hframes : ∀ f ∈ frames, f.Holds q) {t : Token}
    (ht : t.Holds q) : (needValue frames t).Holds q := by
  cases t with
  | openArray | openObject =>
      exact List.forall_mem_cons.mpr ⟨List.forall_mem_nil _, hframes⟩
  | string l | word l => exact putLeaf_holds hframes ht
  | closeArray | closeObject | comma | colon => exact breakOff_holds (.leaf (hbroken _)) hframes

theorem needName_holds {members : List (Name × Draft)} {frames : List Frame}
    (hframes : ∀ f ∈ Frame.object members :: frames, f.Holds q) (t : Token) :
    (needName members frames t).Holds q := by
  unfold needName
  split
  · split
    · exact endWith_holds hbroken _ hframes
    · obtain ⟨hmembers, hrest⟩ := List.forall_mem_cons.mp hframes
      exact List.forall_mem_cons.mpr ⟨hmembers, hrest⟩
  · exact endWith_holds hbroken _ hframes

/-- A step makes up no leaf that is not broken. -/
theorem step_holds {s : State} (hs : ∀ f ∈ s.frames, f.Holds q) {t : Token} (ht : t.Holds q) :
    (step s t).Holds q := by
  have hlist : ∀ {items fs}, s.frames = .list items :: fs →
      (deliver (.list items.reverse .closed) fs).Holds q := by
    intro items fs hframes
    rw [hframes] at hs
    obtain ⟨hitems, hfs⟩ := List.forall_mem_cons.mp hs
    exact deliver_holds (.list fun d hd => hitems d (List.mem_reverse.mp hd)) hfs
  have hobject : ∀ {members fs}, s.frames = .object members :: fs →
      (deliver (.object members.reverse .closed) fs).Holds q := by
    intro members fs hframes
    rw [hframes] at hs
    obtain ⟨hmembers, hfs⟩ := List.forall_mem_cons.mp hs
    exact deliver_holds (.object fun m hm => hmembers m (List.mem_reverse.mp hm)) hfs
  unfold step
  split
  -- a value has to come
  case h_1 | h_3 | h_5 => exact needValue_holds hbroken hs ht
  -- a name has to come
  case h_7 hframes _ | h_8 hframes => exact needName_holds hbroken (hframes ▸ hs) _
  -- a container ends
  case h_2 hframes | h_11 hframes => exact hlist hframes
  case h_6 hframes | h_13 hframes => exact hobject hframes
  -- nothing but the place changes
  case h_9 => exact hs
  case h_10 hframes | h_12 hframes => exact hframes ▸ hs
  -- the text breaks off
  case h_4 => exact endWith_holds hbroken _ hs
  case h_14 => exact break_holds hbroken hs _

/-- All leaves of the tree that a text builds have a property that the tokens of the text have. -/
theorem build_holds {s : State} (hs : ∀ f ∈ s.frames, f.Holds q) {ts : List Token}
    (hts : ∀ t ∈ ts, t.Holds q) : (build s ts).draft.Holds q := by
  induction ts generalizing s with
  | nil => exact break_holds hbroken hs _
  | cons t ts ih =>
      obtain ⟨ht, hts⟩ := List.forall_mem_cons.mp hts
      have hstep := step_holds hbroken hs ht
      rw [build_cons]
      cases hmove : step s t with
      | go s' => exact ih (by rw [hmove] at hstep; exact hstep) hts
      | complete d | stop d =>
          rw [hmove] at hstep
          exact hstep

end

/-! ## Numbers -/

/-- Whether a token is a floating number. -/
def Token.isFloating : Token → Bool
  | .word ⟨.ok (.number (.double _)), _⟩ => true
  | _ => false

/-- A text without floating numbers: all its numerals are written as integers and fit into 64 bits,
and none of them is minus zero. -/
def WithoutFloating (s : String) : Prop := ∀ t ∈ tokens s.toList, t.isFloating = false

instance (s : String) : Decidable (WithoutFloating s) :=
  inferInstanceAs (Decidable (∀ t ∈ tokens s.toList, t.isFloating = false))

/-- If a leaf is a number, it is a whole one. -/
def Leaf.IsWhole (l : Leaf) : Prop := ∀ n, l.read = .ok (.number n) → n.IsWhole

theorem isWhole_broken (f : Fault) : (Leaf.broken f).IsWhole := nofun

theorem holds_of_punctuation? {q : Leaf → Prop} {c : Char} {t : Token}
    (h : punctuation? c = some t) : t.Holds q := by
  unfold punctuation? at h
  grind [Token.Holds]

/-- What all tokens of a text have in common. -/
theorem forall_mem_tokens {P : Token → Prop}
    (hpunctuation : ∀ c t, punctuation? c = some t → P t)
    (hstring : ∀ s, P (.string (stringLeaf s).leaf)) (hword : ∀ c s, P (.word (wordAt c s).leaf))
    (s : List Char) : ∀ t ∈ tokens s, P t := by
  induction s using tokens.induct with
  | case1 =>
      rw [tokens]
      exact List.forall_mem_nil _
  | case2 c s hspacing ih =>
      rw [tokens, if_pos hspacing]
      exact ih
  | case3 c s hspacing t ht ih =>
      rw [tokens, if_neg hspacing, ht]
      exact List.forall_mem_cons.mpr ⟨hpunctuation c t ht, ih⟩
  | case4 c s hspacing hnone l ih =>
      rw [tokens, if_neg hspacing, hnone]
      have hl : l = if c = '"' then stringLeaf s else wordAt c s := dite_eq_ite
      dsimp only
      rw [← hl, Leaf.andThen]
      clear_value l
      refine List.forall_mem_cons.mpr ⟨?_, ?_⟩
      · by_cases hquote : c = '"'
        · rw [hl, if_pos hquote, if_pos hquote]
          exact hstring s
        · rw [hl, if_neg hquote, if_neg hquote]
          exact hword c s
      · split
        · exact List.forall_mem_nil _
        · exact ih

theorem isWhole_of_integer? {x : Numeral} {n : Int} (h : x.integer? = some n) :
    (Number.int n).IsWhole := by
  rw [Numeral.integer?] at h
  split at h
  · split at h
    · split at h
      · next hfits =>
        cases h
        have hrange := Text.isInt64_iff.mp hfits.2
        refine ⟨hrange.1, ?_⟩
        omega
      · cases h
    · split at h
      · next hfits =>
        cases h
        refine ⟨?_, ?_⟩
        · omega
        · omega
      · cases h
  · cases h

theorem isWhole_nameLeaf {x : Scalar} (hx : x.leaf.IsWhole) (word s : List Char) :
    (nameLeaf x word s).leaf.IsWhole := by
  induction word generalizing s with
  | nil => exact hx
  | cons c word ih =>
      cases s with
      | nil => exact isWhole_broken _
      | cons d s =>
          rw [nameLeaf]
          split
          · exact ih s
          · exact isWhole_broken _

theorem isWhole_numberLeaf {s : List Char}
    (h : (Token.word (numberLeaf s).leaf).isFloating = false) : (numberLeaf s).leaf.IsWhole := by
  intro n hn
  unfold numberLeaf at h hn
  split at hn
  · next x rest hx =>
    split at hn
    · next m hm =>
      cases hn
      cases n with
      | double x => simp [Token.isFloating, hx, hm] at h
      | int n =>
        rw [Numeral.value?] at hm
        split at hm
        · next hinteger =>
          cases hm
          exact isWhole_of_integer? hinteger
        · obtain ⟨_, _, hm⟩ := Option.map_eq_some_iff.mp hm
          cases hm
    · cases hn
  · cases hn

theorem isWhole_wordAt {c : Char} {s : List Char}
    (h : (Token.word (wordAt c s).leaf).isFloating = false) : (wordAt c s).leaf.IsWhole := by
  rw [wordAt] at h ⊢
  split
  · next hnumeral =>
    rw [if_pos hnumeral] at h
    exact isWhole_numberLeaf h
  split
  · exact isWhole_nameLeaf (fun n hn => by cases hn) _ _
  split
  · exact isWhole_nameLeaf (fun n hn => by cases hn) _ _
  split
  · exact isWhole_nameLeaf (fun n hn => by cases hn) _ _
  · exact isWhole_broken _

theorem isWhole_stringLeaf (s : List Char) : (stringLeaf s).leaf.IsWhole := by
  intro n hn
  have hread : (stringLeaf s).leaf.read =
      (quoted s).content.map fun cs => Scalar.string (String.ofList cs) := by
    unfold stringLeaf
    dsimp only
    split <;> rfl
  obtain ⟨cs, -, hcs⟩ := map_eq_ok_iff.mp (hread.symm.trans hn)
  cases hcs

/-- In a text without floating numbers, all numbers are whole. -/
theorem WithoutFloating.holds {s : String} (h : WithoutFloating s) :
    (Document.ofText s).draft.Holds Leaf.IsWhole := by
  refine build_holds isWhole_broken (List.forall_mem_nil _) fun t ht => ?_
  have hall := forall_mem_tokens (P := fun t => t.isFloating = false → t.Holds Leaf.IsWhole)
    (fun c t hpunctuation _ => holds_of_punctuation? hpunctuation)
    (fun s _ => isWhole_stringLeaf s) (fun c s hword => isWhole_wordAt hword) s.toList
  exact hall t ht (h t ht)

/-! ## Values -/

theorem readable_of_itemValues {room : Nat} {ds : List Draft} {vs : List Value}
    (hds : ∀ d ∈ ds, ∀ v, d.value room = .ok v → v.Readable room)
    (h : itemValues room ds = .ok vs) : ∀ v ∈ vs, v.Readable room := by
  induction ds generalizing vs with
  | nil =>
      cases h
      exact List.forall_mem_nil _
  | cons d ds ih =>
      rw [itemValues] at h
      obtain ⟨v, hv, h⟩ := bind_eq_ok_iff.mp h
      obtain ⟨ws, hws, h⟩ := bind_eq_ok_iff.mp h
      cases h
      obtain ⟨hd, hds⟩ := List.forall_mem_cons.mp hds
      exact List.forall_mem_cons.mpr ⟨hd v hv, ih hds hws⟩

theorem readable_of_memberValues {room : Nat} {ds : List (Name × Draft)}
    {done ms : List (String × Value)}
    (hds : ∀ d ∈ ds, ∀ v, d.2.value room = .ok v → v.Readable room)
    (hnames : (done.map Prod.fst).Nodup) (hdone : ∀ p ∈ done, p.2.Readable room)
    (h : memberValues room done ds = .ok ms) :
    (ms.map Prod.fst).Nodup ∧ ∀ p ∈ ms, p.2.Readable room := by
  induction ds generalizing done with
  | nil =>
      cases h
      exact ⟨hnames, hdone⟩
  | cons d ds ih =>
      obtain ⟨name, d⟩ := d
      rw [memberValues] at h
      obtain ⟨name, -, h⟩ := bind_eq_ok_iff.mp h
      obtain ⟨v, hv, h⟩ := bind_eq_ok_iff.mp h
      obtain ⟨hd, hds⟩ := List.forall_mem_cons.mp hds
      exact ih hds (Pairs.nodup_alter _ _ hnames)
        (Pairs.forall_mem_alter hdone fun _ => hd v hv) h

/-- A tree whose numbers are whole has a value that is read as it is written. -/
theorem Draft.Holds.readable {d : Draft} (hd : d.Holds Leaf.IsWhole) {room : Nat} {v : Value}
    (h : d.value room = .ok v) : v.Readable room := by
  induction hd generalizing room v with
  | @leaf l hl =>
      rw [Draft.value] at h
      obtain ⟨x, hx, rfl⟩ := map_eq_ok_iff.mp h
      cases x with
      | number n => exact .number (hl n hx)
      | null => exact .null
      | bool b => exact .bool b
      | string s => exact .string s
  | @list items ending hitems ih =>
      rw [Draft.value] at h
      split at h
      · cases h
      · next hroom =>
        obtain ⟨vs, hvs, h⟩ := bind_eq_ok_iff.mp h
        obtain ⟨_, -, h⟩ := bind_eq_ok_iff.mp h
        cases h
        exact .array (Nat.lt_of_not_le hroom)
          (readable_of_itemValues (fun d hmem v hv => ih d hmem hv) hvs)
  | @object members ending hmembers ih =>
      rw [Draft.value] at h
      split at h
      · cases h
      · next hroom =>
        obtain ⟨ms, hms, h⟩ := bind_eq_ok_iff.mp h
        obtain ⟨_, -, h⟩ := bind_eq_ok_iff.mp h
        cases h
        have hnone : (([] : List (String × Value)).map Prod.fst).Nodup := List.nodup_nil
        obtain ⟨hnames, hvalues⟩ := readable_of_memberValues (fun d hmem v hv => ih d hmem hv)
          hnone (List.forall_mem_nil _) hms
        exact .object (Nat.lt_of_not_le hroom) hnames hvalues

end Holdings.Json
