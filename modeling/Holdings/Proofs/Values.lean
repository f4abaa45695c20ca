import Holdings.Json.Shape
import Holdings.Proofs.Identifiers
import Holdings.Proofs.Settings
/-!
# Values that were written

What was written as a text is read back. A written value stands in a text like one token: whatever
container is open, the machine that builds the tree goes on behind the value as if its tree had been
delivered (`Json.Value.Readable.builds`). This holds in front of any text that cannot prolong a
numeral, and it is an induction on the value. The tree of a written value has the value that was
written, as long as no two members of an object have one name and nothing lies too deep.

Floating numbers are left out, since they are read in steps that round.
-/

namespace Holdings.Json

/-! ## Strings -/

theorem mapM_controlDigits : ∀ n : Fin 32,
    (controlDigits (Char.ofNat n)).length = 4 ∧
      (controlDigits (Char.ofNat n)).mapM Text.hexValue? = some [0, 0, n.val / 16, n.val % 16] := by
  decide

theorem hexUnit_controlDigits {c : Char} (h : c.toNat < 0x20) (t : List Char) :
    (controlDigits c).length = 4 ∧ hexUnit (controlDigits c ++ t) = .ok c.toNat := by
  obtain ⟨hlength, hdigits⟩ := mapM_controlDigits ⟨c.toNat, h⟩
  simp only [Char.ofNat_toNat] at hlength hdigits
  refine ⟨hlength, ?_⟩
  rw [hexUnit, List.take_left' hlength, hdigits]
  show Except.ok (((0 * 16 + 0) * 16 + c.toNat / 16) * 16 + c.toNat % 16) = _
  congr 1
  omega

/-- A character is written as a letter behind a backslash, or by its digits, or as it is. -/
theorem escapeChar_cases (c : Char) :
    (∃ e, e ≠ 'u' ∧ escaped? e = some c ∧ escapeChar c = ['\\', e]) ∨
      (c.toNat < 0x20 ∧ escapeChar c = '\\' :: 'u' :: controlDigits c) ∨
      (c ≠ '"' ∧ c ≠ '\\' ∧ ¬ c.toNat < 0x20 ∧ escapeChar c = [c]) := by
  have hletter : ∀ d e : Char, e ≠ 'u' → escaped? e = some d → c = d →
      ∃ e', e' ≠ 'u' ∧ escaped? e' = some c ∧ ['\\', e] = ['\\', e'] := by
    rintro d e hu he rfl
    exact ⟨e, hu, he, rfl⟩
  unfold escapeChar
  split
  · next h => exact .inl (hletter '"' '"' (by decide) rfl h)
  split
  · next h => exact .inl (hletter '\\' '\\' (by decide) rfl h)
  split
  · next h => exact .inl (hletter '\x08' 'b' (by decide) rfl h)
  split
  · next h => exact .inl (hletter '\t' 't' (by decide) rfl h)
  split
  · next h => exact .inl (hletter '\n' 'n' (by decide) rfl h)
  split
  · next h => exact .inl (hletter '\x0c' 'f' (by decide) rfl h)
  split
  · next h => exact .inl (hletter '\r' 'r' (by decide) rfl h)
  split
  · next h => exact .inr (.inl ⟨h, rfl⟩)
  · next hquote hbackslash _ _ _ _ _ hcontrol =>
    exact .inr (.inr ⟨hquote, hbackslash, hcontrol, rfl⟩)

/-- A character as it is written in a string is read as one piece. -/
theorem exists_piece_escapeChar (c : Char) :
    ∃ e es, escapeChar c = e :: es ∧ e ≠ '"' ∧
      ∀ t, pieceAt e (es ++ t) = .char c es.length := by
  rcases escapeChar_cases c with ⟨e, hu, he, htext⟩ | ⟨hcontrol, htext⟩ |
    ⟨hquote, hbackslash, hcontrol, htext⟩
  · refine ⟨'\\', [e], htext, by decide, fun t => ?_⟩
    simp only [pieceAt, if_true, List.singleton_append, if_neg hu, he, List.length_singleton]
  · refine ⟨'\\', 'u' :: controlDigits c, htext, by decide, fun t => ?_⟩
    obtain ⟨hlength, hunit⟩ := hexUnit_controlDigits hcontrol t
    have hhigh : isHigh c.toNat = false := by simp [isHigh]; omega
    have hlow : isLow c.toNat = false := by simp [isLow]; omega
    simp only [pieceAt, List.cons_append, if_true, hunit, unitPiece, hhigh, hlow,
      Bool.false_eq_true, if_false, Char.ofNat_toNat, List.length_cons, hlength]
  · refine ⟨c, [], htext, hquote, fun t => ?_⟩
    simp only [pieceAt, if_neg hbackslash, if_neg hcontrol, List.nil_append, List.length_nil]

theorem quoted_flatMap (s rest : List Char) :
    quoted (s.flatMap escapeChar ++ '"' :: rest) = ⟨.ok s, .ok rest⟩ := by
  induction s with
  | nil =>
      rw [List.flatMap_nil, List.nil_append, quoted, if_pos rfl]
  | cons c s ih =>
      obtain ⟨e, es, hescape, hquote, hpiece⟩ := exists_piece_escapeChar c
      rw [List.flatMap_cons, hescape, List.append_assoc, List.cons_append, quoted, if_neg hquote,
        hpiece]
      dsimp only
      rw [List.drop_left, ih]
      rfl

/-! ## Leaves -/

/-- The leaf of a scalar as it is written. -/
def Scalar.leaf (x : Scalar) : Leaf := ⟨.ok x, none⟩

theorem drop_length_sub (s rest : List Char) :
    (s ++ rest).drop ((s ++ rest).length - rest.length) = rest := by
  rw [List.length_append, Nat.add_sub_cancel, List.drop_left]

theorem tokens_string (s : String) (rest : List Char) :
    tokens (stringText s ++ rest) = .string (Scalar.string s).leaf :: tokens rest := by
  have hquoted := quoted_flatMap s.toList rest
  have hdrop := drop_length_sub (s.toList.flatMap escapeChar ++ ['"']) rest
  rw [List.append_assoc, List.singleton_append] at hdrop
  rw [stringText, List.append_assoc, List.singleton_append, List.cons_append, tokens]
  rw [if_neg (by decide)]
  have hnone : punctuation? '"' = none := by decide
  rw [hnone]
  simp only [if_true, stringLeaf, hquoted, Except.map, String.ofList_toList, hdrop]
  rfl

/-- A word is one token, and the tokens go on behind it. -/
theorem tokens_word {c : Char} {s rest : List Char} {x : Scalar}
    (hspacing : Text.isSpacing c = false) (hnone : punctuation? c = none) (hquote : c ≠ '"')
    (hword : wordAt c (s ++ rest) = ⟨x.leaf, rest⟩) :
    tokens (c :: s ++ rest) = .word x.leaf :: tokens rest := by
  rw [List.cons_append, tokens, hspacing, hnone]
  simp only [if_neg hquote, hword, drop_length_sub]
  rfl

theorem nameLeaf_append (x : Scalar) (word rest : List Char) :
    nameLeaf x word (word ++ rest) = ⟨x.leaf, rest⟩ := by
  induction word with
  | nil => rfl
  | cons c word ih => rw [List.cons_append, nameLeaf, if_pos rfl, ih]

theorem tokens_null (rest : List Char) :
    tokens ("null".toList ++ rest) = .word Scalar.null.leaf :: tokens rest :=
  tokens_word (s := "ull".toList) rfl rfl (by decide) (nameLeaf_append .null _ rest)

theorem tokens_bool (b : Bool) (rest : List Char) :
    tokens ((if b then "true" else "false").toList ++ rest) =
      .word (Scalar.bool b).leaf :: tokens rest := by
  cases b with
  | true => exact tokens_word (s := "rue".toList) rfl rfl (by decide) (nameLeaf_append _ _ rest)
  | false => exact tokens_word (s := "alse".toList) rfl rfl (by decide) (nameLeaf_append _ _ rest)

/-! ## Integers -/

/-- The integers that are read as integers: those of 64 bits with a sign or without one. -/
def Number.IsWhole : Number → Prop
  | .int n => -9223372036854775808 ≤ n ∧ n < UInt64.size
  | .double _ => False

/-- A text that does not go on with what could belong to a numeral before it. -/
def EndsNumeral (rest : List Char) : Prop :=
  ∀ c, rest.head? = some c → c.isDigit = false ∧ c ≠ '.' ∧ c ≠ 'e' ∧ c ≠ 'E'

theorem endsNumeral_nil : EndsNumeral [] := nofun

theorem endsNumeral_cons {c : Char} (h : c.isDigit = false ∧ c ≠ '.' ∧ c ≠ 'e' ∧ c ≠ 'E')
    (rest : List Char) : EndsNumeral (c :: rest) := by
  intro d hd
  rw [← Option.some.inj hd]
  exact h

/-- Only zero is written with a zero in front. -/
theorem head?_toDigits_ne {n : Nat} (h : 0 < n) : (Nat.toDigits 10 n).head? ≠ some '0' := by
  induction n using Nat.strongRecOn with
  | ind n ih =>
    by_cases hlt : n < 10
    · rw [Nat.toDigits_of_lt_base hlt]
      have hdigits : ∀ d : Fin 10, 0 < d.val → [Nat.digitChar d.val].head? ≠ some '0' := by decide
      exact hdigits ⟨n, hlt⟩ h
    · have hquotient := ih (n / 10) (by omega) (by omega)
      rw [Nat.toDigits_of_base_le (by decide) (by omega), List.head?_append]
      cases hhead : (Nat.toDigits 10 (n / 10)).head? with
      | none => exact absurd (List.head?_eq_none_iff.mp hhead) Nat.toDigits_ne_nil
      | some c =>
          rw [hhead] at hquotient
          exact hquotient

theorem exists_cons_toDigits (n : Nat) :
    ∃ c s, Nat.toDigits 10 n = c :: s ∧ c.isDigit = true := by
  obtain ⟨c, s, hdigits⟩ := List.exists_cons_of_ne_nil (Nat.toDigits_ne_nil (b := 10) (n := n))
  have hc : c ∈ Nat.toDigits 10 n := hdigits ▸ List.mem_cons_self
  exact ⟨c, s, hdigits, Nat.isDigit_of_mem_toDigits (by decide) (by decide) hc⟩

theorem digits_toDigits (early : Fault) (n : Nat) {rest : List Char} (h : EndsNumeral rest) :
    Numeral.digits early (Nat.toDigits 10 n ++ rest) = .ok (Nat.toDigits 10 n, rest) := by
  have hdigit : ∀ c ∈ Nat.toDigits 10 n, c.isDigit = true := fun c hc =>
    Nat.isDigit_of_mem_toDigits (by decide) (by decide) hc
  have htake : rest.takeWhile Char.isDigit = [] := by
    cases rest with
    | nil => rfl
    | cons c rest => simp [(h c rfl).1]
  have hdrop : rest.dropWhile Char.isDigit = rest := by
    cases rest with
    | nil => rfl
    | cons c rest => simp [(h c rfl).1]
  rw [Numeral.digits, List.takeWhile_append_of_pos hdigit, List.dropWhile_append_of_pos hdigit,
    htake, hdrop, List.append_nil]
  split
  · next hnil => exact absurd hnil Nat.toDigits_ne_nil
  · rfl

theorem wholePart_toDigits (early : Fault) (n : Nat) {rest : List Char} (h : EndsNumeral rest) :
    Numeral.wholePart early (Nat.toDigits 10 n ++ rest) = .ok (Nat.toDigits 10 n, rest) := by
  rw [Numeral.wholePart, digits_toDigits early n h]
  simp only [bind, Except.bind]
  split
  · next c cs hzero =>
    rcases Nat.eq_zero_or_pos n with rfl | hpos
    · rw [Nat.toDigits_zero] at hzero
      cases hzero
    · exact absurd (by rw [hzero]; rfl) (head?_toDigits_ne hpos)
  · rfl

/-- The numeral of digits that stand alone. -/
theorem parse_toDigits (early : Fault) (n : Nat) {rest : List Char} (h : EndsNumeral rest)
    (negative : Bool) :
    Numeral.parse early ((if negative then ['-'] else []) ++ (Nat.toDigits 10 n ++ rest)) =
      .ok (⟨negative, Nat.toDigits 10 n, none, none⟩, rest) := by
  have hfraction : Numeral.fractionPart early rest = .ok (none, rest) := by
    unfold Numeral.fractionPart
    split
    · next s => exact absurd rfl (h '.' rfl).2.1
    · rfl
  have hexponent : Numeral.exponentPart early rest = .ok (none, rest) := by
    cases rest with
    | nil => rfl
    | cons c rest =>
        obtain ⟨-, -, he, hE⟩ := h c rfl
        rw [Numeral.exponentPart, if_neg (not_or.mpr ⟨he, hE⟩)]
  have hsign : ∀ s : List Char, (Nat.toDigits 10 n ++ rest) ≠ '-' :: s := by
    intro s hs
    obtain ⟨c, cs, hdigits, hc⟩ := exists_cons_toDigits n
    rw [hdigits] at hs
    rw [(List.cons.inj hs).1] at hc
    cases hc
  have hparts : (do
      let x ← Numeral.wholePart early (Nat.toDigits 10 n ++ rest)
      let y ← Numeral.fractionPart early x.2
      let z ← Numeral.exponentPart early y.2
      .ok ((⟨negative, x.1, y.1, z.1⟩ : Numeral), z.2)) =
      Except.ok (⟨negative, Nat.toDigits 10 n, none, none⟩, rest) := by
    simp only [wholePart_toDigits early n h, hfraction, hexponent, bind, Except.bind]
  cases negative with
  | true => exact hparts
  | false =>
      -- the first digit is no sign
      simp only [Numeral.parse, Bool.false_eq_true, if_false, List.nil_append]
      exact hparts

/-- An integer as it is written, by its sign and the digits of its amount. -/
theorem toList_toString (n : Int) :
    (toString n).toList =
      (if decide (n < 0) then ['-'] else []) ++ Nat.toDigits 10 n.natAbs := by
  rw [Int.toString_eq_repr, Int.repr_eq_if]
  split
  · next h =>
    have habs : n.toNat = n.natAbs := by omega
    rw [Nat.toList_repr, decide_eq_false (by omega), habs]
    rfl
  · next h =>
    rw [decide_eq_true (by omega), String.toList_append, Nat.toList_repr]
    congr 2
    omega

theorem numberLeaf_int {n : Int} (hn : (Number.int n).IsWhole) {rest : List Char}
    (h : EndsNumeral rest) :
    numberLeaf ((toString n).toList ++ rest) = ⟨(Scalar.number (.int n)).leaf, rest⟩ := by
  obtain ⟨hlow, hhigh⟩ := hn
  have hvalue : (Numeral.mk (decide (n < 0)) (Nat.toDigits 10 n.natAbs) none none).integer? =
      some n := by
    rw [Numeral.integer?, Nat.ofDigitChars_ten_toDigits]
    by_cases hneg : n < 0
    · have habs : -(n.natAbs : Int) = n := by omega
      have hfits : Text.isInt64 n = true := by
        rw [Text.isInt64_iff]
        omega
      simp only [decide_eq_true hneg, habs, hfits, and_true, if_pos (show 0 < n.natAbs by omega)]
      rfl
    · have habs : (n.natAbs : Int) = n := by omega
      have hfits : n.natAbs < UInt64.size := by omega
      simp only [decide_eq_false hneg, habs, if_pos hfits]
      rfl
  rw [toList_toString, List.append_assoc, numberLeaf, parse_toDigits _ _ h]
  simp only [Numeral.value?, hvalue]
  rfl

/-- What starts a numeral is no blank, no punctuation and no quote. -/
theorem startsWord_of_startsNumeral {c : Char} (h : c = '-' ∨ c.isDigit) :
    Text.isSpacing c = false ∧ punctuation? c = none ∧ c ≠ '"' := by
  rcases h with rfl | hdigit
  · decide
  · have hcode := toNat_of_isDigit hdigit
    have hne : ∀ d : Char, d.toNat < 48 ∨ 57 < d.toNat → c ≠ d := by
      rintro d hd rfl
      omega
    refine ⟨?_, ?_, hne _ (by decide)⟩
    · simp [Text.isSpacing, hne]
    · simp [punctuation?, hne]

theorem tokens_int {n : Int} (hn : (Number.int n).IsWhole) {rest : List Char}
    (h : EndsNumeral rest) :
    tokens ((toString n).toList ++ rest) = .word (Scalar.number (.int n)).leaf :: tokens rest := by
  have hleaf := numberLeaf_int hn h
  obtain ⟨c, s, htext, hstart⟩ :
      ∃ c s, (toString n).toList = c :: s ∧ (c = '-' ∨ c.isDigit) := by
    rw [toList_toString]
    by_cases hneg : n < 0
    · exact ⟨'-', Nat.toDigits 10 n.natAbs, by rw [decide_eq_true hneg]; rfl, .inl rfl⟩
    · obtain ⟨c, s, hdigits, hdigit⟩ := exists_cons_toDigits n.natAbs
      exact ⟨c, s, by rw [decide_eq_false hneg, hdigits]; rfl, .inr hdigit⟩
  rw [htext] at hleaf ⊢
  obtain ⟨hspacing, hnone, hquote⟩ := startsWord_of_startsNumeral hstart
  refine tokens_word hspacing hnone hquote ?_
  rw [wordAt, if_pos hstart]
  exact hleaf

/-! ## Values -/

mutual
/-- The tree of a value. -/
def Value.draft : Value → Draft
  | .null => .leaf Scalar.null.leaf
  | .bool b => .leaf (Scalar.bool b).leaf
  | .number n => .leaf (Scalar.number n).leaf
  | .string s => .leaf (Scalar.string s).leaf
  | .array items => .list (itemDrafts items) .closed
  | .object members => .object (memberDrafts members) .closed
/-- The trees of items. -/
def itemDrafts : List Value → List Draft
  | [] => []
  | v :: vs => v.draft :: itemDrafts vs
/-- The trees of members. -/
def memberDrafts : List (String × Value) → List (Name × Draft)
  | [] => []
  | (name, v) :: ms => (.ok name, v.draft) :: memberDrafts ms
end

/-- The values that are read as they are written, in a place where `room` says how deep one may
still go. -/
inductive Value.Readable : Nat → Value → Prop where
  | null {room : Nat} : Readable room .null
  | bool {room : Nat} (b : Bool) : Readable room (.bool b)
  | number {room : Nat} {n : Number} (h : n.IsWhole) : Readable room (.number n)
  | string {room : Nat} (s : String) : Readable room (.string s)
  | array {room : Nat} {items : List Value} (hroom : 1 < room)
      (hitems : ∀ v ∈ items, Readable (room - 1) v) : Readable room (.array items)
  | object {room : Nat} {members : List (String × Value)} (hroom : 1 < room)
      (hnames : (members.map Prod.fst).Nodup)
      (hvalues : ∀ p ∈ members, Readable (room - 1) p.2) : Readable room (.object members)

/-! ### Their tokens -/

/-- A punctuation character is one token. -/
theorem tokens_punctuation {c : Char} {t : Token} (hspacing : Text.isSpacing c = false)
    (ht : punctuation? c = some t) (rest : List Char) : tokens (c :: rest) = t :: tokens rest := by
  rw [tokens, hspacing, ht]
  rfl

/-- What comes of the tokens that are left after a move. -/
def Move.andThen (m : Move) (ts : List Token) : Document :=
  match m with
  | .go s => build s ts
  | .complete d => ⟨d, !ts.isEmpty⟩
  | .stop d => ⟨d, false⟩

theorem build_cons (s : State) (t : Token) (ts : List Token) :
    build s (t :: ts) = (step s t).andThen ts := by
  rw [build]
  cases step s t <;> rfl

/-- The places where a value may come next. -/
def Place.asksValue : Place → Bool
  | .value => true
  | .firstItem => true
  | .nextItem => true
  | _ => false

theorem step_of_startValue {p : Place} {frames : List Frame} {t : Token} {m : Move}
    (hp : p.asksValue) (hm : startValue? frames t = some m) : step ⟨p, frames⟩ t = m := by
  have hneed : needValue frames t = m := by rw [needValue, hm, Option.getD_some]
  cases p with
  | value => exact hneed
  | firstItem | nextItem =>
      -- only the end of an array is treated in another way, and it starts no value
      cases t with
      | closeArray => cases hm
      | _ =>
          simp only [step]
          exact hneed
  | firstName | nextName | colon | separator => cases hp

/-- The text of a value `v` stands for its tree, wherever a value may come. -/
def Value.Builds (v : Value) : Prop :=
  ∀ (p : Place) (frames : List Frame) (rest : List Char), p.asksValue → EndsNumeral rest →
    build ⟨p, frames⟩ (tokens (v.chars ++ rest)) = (deliver v.draft frames).andThen (tokens rest)

/-- A text that is one leaf builds it. -/
theorem builds_leaf {x : Scalar} {token : Leaf → Token} {text : List Char}
    (htoken : ∀ (frames : List Frame) (l : Leaf), startValue? frames (token l) =
      some (putLeaf frames l))
    {p : Place} {frames : List Frame} {rest : List Char} (hp : p.asksValue)
    (htext : tokens (text ++ rest) = token x.leaf :: tokens rest) :
    build ⟨p, frames⟩ (tokens (text ++ rest)) =
      (deliver (.leaf x.leaf) frames).andThen (tokens rest) := by
  rw [htext, build_cons, step_of_startValue hp (htoken frames x.leaf)]
  rfl

/-- Items with commas between them build their trees behind those that are there, up to the end
of the array. -/
theorem build_items {v : Value} {vs : List Value} (hvs : ∀ w ∈ v :: vs, w.Builds) {p : Place}
    (hp : p.asksValue) (done : List Draft) (frames : List Frame) (rest : List Char) :
    build ⟨p, .list done :: frames⟩ (tokens (commas (itemChars (v :: vs)) ++ ']' :: rest)) =
      (deliver (.list (done.reverse ++ itemDrafts (v :: vs)) .closed) frames).andThen
        (tokens rest) := by
  have hv : v.Builds := hvs v List.mem_cons_self
  induction vs generalizing v p done with
  | nil =>
      rw [itemChars, itemChars, commas, hv _ _ _ hp (endsNumeral_cons (by decide) _),
        tokens_punctuation (by decide) (t := .closeArray) rfl, itemDrafts, itemDrafts,
        ← List.reverse_cons]
      exact build_cons _ _ _
  | cons w ws ih =>
      -- the value is delivered to the array, and the comma asks for the next one
      have hrest := ih (fun u hu => hvs u (List.mem_cons_of_mem v hu)) (p := .nextItem) rfl
        (v.draft :: done) (hvs w (List.mem_cons_of_mem v List.mem_cons_self))
      rw [itemChars, itemChars, commas, ← itemChars, List.append_assoc, List.cons_append,
        hv _ _ _ hp (endsNumeral_cons (by decide) _),
        tokens_punctuation (by decide) (t := .comma) rfl, itemDrafts]
      rw [List.reverse_cons, List.append_assoc, List.singleton_append] at hrest
      rw [← hrest]
      · exact build_cons ⟨.separator, .list (v.draft :: done) :: frames⟩ .comma _
      · nofun

/-- The places where a name may come next. -/
def Place.asksName : Place → Bool
  | .firstName => true
  | .nextName => true
  | _ => false

/-- Members with commas between them build their trees behind those that are there, up to the end
of the object. -/
theorem build_member {v : Value} (hv : v.Builds) {p : Place} (hp : p.asksName)
    (name : String) (done : List (Name × Draft)) (frames : List Frame) {rest : List Char}
    (h : EndsNumeral rest) :
    build ⟨p, .object done :: frames⟩ (tokens (stringText name ++ ':' :: v.chars ++ rest)) =
      build ⟨.separator, .object ((.ok name, v.draft) :: done) :: frames⟩ (tokens rest) := by
  have hname : step ⟨p, .object done :: frames⟩ (.string (Scalar.string name).leaf) =
      .go ⟨.colon, .member done (.ok name) :: frames⟩ := by
    cases p with
    | firstName | nextName => rfl
    | value | firstItem | nextItem | colon | separator => cases hp
  rw [List.append_assoc, List.cons_append, tokens_string,
    tokens_punctuation (by decide) (t := .colon) rfl, build_cons, hname]
  show build ⟨.colon, .member done (.ok name) :: frames⟩ _ = _
  rw [build_cons]
  exact hv .value _ _ rfl h

theorem build_members {name : String} {v : Value} {ms : List (String × Value)}
    (hms : ∀ p ∈ (name, v) :: ms, p.2.Builds) {p : Place} (hp : p.asksName)
    (done : List (Name × Draft)) (frames : List Frame) (rest : List Char) :
    build ⟨p, .object done :: frames⟩
        (tokens (commas (memberChars ((name, v) :: ms)) ++ '}' :: rest)) =
      (deliver (.object (done.reverse ++ memberDrafts ((name, v) :: ms)) .closed) frames).andThen
        (tokens rest) := by
  have hv : v.Builds := hms (name, v) List.mem_cons_self
  induction ms generalizing name v p done with
  | nil =>
      rw [memberChars, memberChars, commas,
        build_member hv hp _ _ _ (endsNumeral_cons (by decide) _),
        tokens_punctuation (by decide) (t := .closeObject) rfl, memberDrafts, memberDrafts,
        ← List.reverse_cons]
      exact build_cons _ _ _
  | cons m ms ih =>
      obtain ⟨name', w⟩ := m
      have hrest := ih (fun u hu => hms u (List.mem_cons_of_mem _ hu)) (p := .nextName) rfl
        ((.ok name, v.draft) :: done) (hms (name', w) (List.mem_cons_of_mem _ List.mem_cons_self))
      rw [memberChars, memberChars, commas, ← memberChars, List.append_assoc, List.cons_append,
        build_member hv hp _ _ _ (endsNumeral_cons (by decide) _),
        tokens_punctuation (by decide) (t := .comma) rfl, memberDrafts]
      rw [List.reverse_cons, List.append_assoc, List.singleton_append] at hrest
      rw [← hrest]
      · exact build_cons _ _ _
      · nofun

theorem Value.Readable.builds {room : Nat} {v : Value} (h : v.Readable room) : v.Builds := by
  induction h with
  | null => exact fun p frames rest hp _ => builds_leaf (fun _ _ => rfl) hp (tokens_null rest)
  | bool b => exact fun p frames rest hp _ => builds_leaf (fun _ _ => rfl) hp (tokens_bool b rest)
  | @number room n hn =>
      intro p frames rest hp hrest
      cases n with
      | int n => exact builds_leaf (fun _ _ => rfl) hp (tokens_int hn hrest)
      | double x => exact absurd hn id
  | string s =>
      exact fun p frames rest hp _ => builds_leaf (fun _ _ => rfl) hp (tokens_string s rest)
  | @array room items hroom hitems ih =>
      intro p frames rest hp _
      have hopen : step ⟨p, frames⟩ .openArray = .go ⟨.firstItem, .list [] :: frames⟩ :=
        step_of_startValue hp rfl
      rw [Value.chars, List.append_assoc, List.cons_append,
        tokens_punctuation (by decide) (t := .openArray) rfl, build_cons, hopen]
      cases items with
      | nil =>
          rw [itemChars, commas, List.nil_append, List.singleton_append,
            tokens_punctuation (by decide) (t := .closeArray) rfl]
          exact build_cons _ _ _
      | cons w ws => exact build_items ih rfl [] frames rest
  | @object room members hroom hnames hvalues ih =>
      intro p frames rest hp _
      have hopen : step ⟨p, frames⟩ .openObject = .go ⟨.firstName, .object [] :: frames⟩ :=
        step_of_startValue hp rfl
      rw [Value.chars, List.append_assoc, List.cons_append,
        tokens_punctuation (by decide) (t := .openObject) rfl, build_cons, hopen]
      cases members with
      | nil =>
          rw [memberChars, commas, List.nil_append, List.singleton_append,
            tokens_punctuation (by decide) (t := .closeObject) rfl]
          exact build_cons _ _ _
      | cons m ms => exact build_members ih rfl [] frames rest

/-! ### Their reading -/

theorem itemValues_itemDrafts {room : Nat} {vs : List Value}
    (h : ∀ v ∈ vs, v.draft.value room = .ok v) : itemValues room (itemDrafts vs) = .ok vs := by
  induction vs with
  | nil => rfl
  | cons v vs ih =>
      have hrest := ih fun w hw => h w (List.mem_cons_of_mem v hw)
      rw [itemDrafts, itemValues, h v List.mem_cons_self, hrest]
      rfl

/-- Members with new names come behind those that are there. -/
theorem memberValues_memberDrafts {room : Nat} {done ms : List (String × Value)}
    (hnames : ((done ++ ms).map Prod.fst).Nodup) (h : ∀ p ∈ ms, p.2.draft.value room = .ok p.2) :
    memberValues room done (memberDrafts ms) = .ok (done ++ ms) := by
  induction ms generalizing done with
  | nil => rw [List.append_nil]; rfl
  | cons m ms ih =>
      obtain ⟨name, v⟩ := m
      have hnew : name ∉ done.map Prod.fst := by
        rw [List.map_append, List.nodup_append] at hnames
        exact fun hmem => hnames.2.2 name hmem name List.mem_cons_self rfl
      rw [List.append_cons] at hnames ⊢
      have hrest := ih hnames fun p hp => h p (List.mem_cons_of_mem _ hp)
      rw [memberDrafts, memberValues, h (name, v) List.mem_cons_self]
      show memberValues room (Pairs.put name v done) (memberDrafts ms) = _
      rw [Pairs.put, Pairs.alter_of_not_mem hnew, hrest]

theorem Value.Readable.value_draft {room : Nat} {v : Value} (h : v.Readable room) :
    v.draft.value room = .ok v := by
  induction h with
  | null | bool _ | number _ | string _ => rw [Value.draft, Draft.value]; rfl
  | array hroom hitems ih =>
      rw [Value.draft, Draft.value, if_neg (Nat.not_le.mpr hroom), itemValues_itemDrafts ih]
      rfl
  | @object room members hroom hnames hvalues ih =>
      have hread : memberValues (room - 1) [] (memberDrafts members) = .ok members :=
        memberValues_memberDrafts hnames ih
      rw [Value.draft, Draft.value, if_neg (Nat.not_le.mpr hroom), hread]
      rfl

theorem Value.Builds.ofText_text {v : Value} (h : v.Builds) :
    Document.ofText v.text = ⟨v.draft, false⟩ := by
  have hbuild := h .value [] [] rfl endsNumeral_nil
  rw [List.append_nil, tokens] at hbuild
  rw [Document.ofText, Value.text, String.toList_ofList, hbuild]
  rfl

/-- What was written is read back. -/
theorem Value.Readable.parse_text {v : Value} (h : v.Readable depth) :
    Value.parse v.text = .ok v := by
  rw [Value.parse, h.builds.ofText_text, Document.read, h.value_draft]
  rfl

/-! ## Texts and lists of texts -/

theorem string_draft (t : String) : (Value.string t).draft.string = .ok t := by
  rw [Value.draft]
  rfl

theorem mapM_string_itemDrafts (ts : List String) :
    (itemDrafts (ts.map .string)).mapM Draft.string = .ok ts := by
  induction ts with
  | nil => rfl
  | cons t ts ih =>
      rw [List.map_cons, itemDrafts, List.mapM_cons, string_draft, ih]
      rfl

theorem strings_draft (ts : List String) : (Value.ofTexts ts).draft.strings = .ok ts := by
  rw [Value.ofTexts, Value.draft, Draft.strings, mapM_string_itemDrafts]
  rfl

/-- A tree that is read as a text has this text as its value. -/
theorem value_of_string {d : Draft} {t : String} (h : d.string = .ok t) (room : Nat) :
    d.value room = .ok (.string t) := by
  obtain ⟨found, hfound, h⟩ := bind_eq_ok_iff.mp h
  cases d with
  | leaf l =>
      obtain ⟨x, hx, rfl⟩ := map_eq_ok_iff.mp hfound
      cases x with
      | string s =>
          cases h
          rw [Draft.value, hx]
          rfl
      | null | bool b | number n => cases h
  | list items ending | object members ending =>
      cases hfound
      cases h

theorem itemValues_of_strings {items : List Draft} {ts : List String}
    (h : items.mapM Draft.string = .ok ts) (room : Nat) :
    itemValues room items = .ok (ts.map .string) := by
  induction items generalizing ts with
  | nil =>
      cases h
      rfl
  | cons d items ih =>
      rw [List.mapM_cons] at h
      obtain ⟨t, ht, h⟩ := bind_eq_ok_iff.mp h
      obtain ⟨ts, hts, h⟩ := bind_eq_ok_iff.mp h
      cases h
      rw [itemValues, value_of_string ht, ih hts]
      rfl

theorem value_of_strings {d : Draft} {ts : List String} (h : d.strings = .ok ts) {room : Nat}
    (hroom : 1 < room) : d.value room = .ok (.ofTexts ts) := by
  cases d with
  | list items ending =>
      obtain ⟨ts, hts, h⟩ := bind_eq_ok_iff.mp h
      obtain ⟨_, hending, h⟩ := bind_eq_ok_iff.mp h
      cases h
      rw [Draft.value, if_neg (Nat.not_le.mpr hroom), itemValues_of_strings hts, hending]
      rfl
  | leaf l | object members ending =>
      obtain ⟨_, -, h⟩ := bind_eq_ok_iff.mp h
      cases h

end Holdings.Json
