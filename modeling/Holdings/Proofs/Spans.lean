import Holdings.Proofs.Outline
import Holdings.Proofs.Utf8
/-!
# Spans of a document

A document may hold anything, but what is cut out of it between two lexemes is cut into the same
lexemes when it is read by itself, as long as markup comes after it (`tokens_span`): markup is read
up to its last bracket and not further. So the tags of an element that was found in a document fit
in the element as they did in the document (`exists_nested_span`).
-/

namespace Holdings.Xml

/-! ## Single tokens -/

theorem upTo?_eq_some {ends : List Char → Bool} {before s body : List Char}
    (h : upTo? ends before s = some body) :
    ∃ x rest, s = x ++ '>' :: rest ∧ body = before.reverse ++ x ∧
      ∀ t, upTo? ends before (x ++ '>' :: t) = some body := by
  induction s generalizing before with
  | nil => cases h
  | cons c s ih =>
      rw [upTo?] at h
      split at h
      · next hc =>
        cases h
        have hbracket : c = '>' := by
          rw [Bool.and_eq_true, decide_eq_true_eq] at hc
          exact hc.1
        subst hbracket
        refine ⟨[], s, rfl, (List.append_nil _).symm, fun t => ?_⟩
        rw [List.nil_append, upTo?, if_pos hc]
      · next hc =>
        obtain ⟨x, rest, rfl, rfl, hx⟩ := ih h
        refine ⟨c :: x, rest, rfl, by simp, fun t => ?_⟩
        rw [List.cons_append, upTo?, if_neg hc, hx]

theorem tagBody?_eq_some {quote : Option Char} {s body : List Char}
    (h : tagBody? quote s = some body) :
    ∃ rest, s = body ++ '>' :: rest ∧ ∀ t, tagBody? quote (body ++ '>' :: t) = some body := by
  induction s generalizing quote body with
  | nil => cases h
  | cons c s ih =>
      cases quote with
      | some q =>
          rw [tagBody?] at h
          obtain ⟨body, hbody, rfl⟩ := Option.map_eq_some_iff.mp h
          obtain ⟨rest, rfl, hrest⟩ := ih hbody
          refine ⟨rest, rfl, fun t => ?_⟩
          rw [List.cons_append, tagBody?, hrest]
          rfl
      | none =>
          rw [tagBody?] at h
          split at h
          · next hc =>
            cases h
            subst hc
            exact ⟨s, rfl, fun t => rfl⟩
          · next hc =>
            obtain ⟨body, hbody, rfl⟩ := Option.map_eq_some_iff.mp h
            obtain ⟨rest, rfl, hrest⟩ := ih hbody
            refine ⟨rest, rfl, fun t => ?_⟩
            rw [List.cons_append, tagBody?, if_neg hc, hrest]
            rfl

/-- A tag that breaks off before its last bracket is none. -/
theorem tagBody?_of_prefix {quote : Option Char} {s body : List Char}
    (h : tagBody? quote (body ++ ['>']) = some body) (hs : s <+: body) :
    tagBody? quote s = none := by
  induction s generalizing quote body with
  | nil => rfl
  | cons c s ih =>
      obtain ⟨rest, rfl⟩ := hs
      have hprefix : s <+: s ++ rest := List.prefix_append s rest
      cases quote with
      | some q =>
          rw [List.cons_append, List.cons_append, tagBody?, Option.map_eq_some_iff] at h
          obtain ⟨body, hbody, hcons⟩ := h
          obtain rfl := (List.cons.inj hcons).2
          rw [tagBody?, ih hbody hprefix]
          rfl
      | none =>
          rw [List.cons_append, List.cons_append, tagBody?] at h
          split at h
          · cases h
          · next hc =>
            obtain ⟨body, hbody, hcons⟩ := Option.map_eq_some_iff.mp h
            obtain rfl := (List.cons.inj hcons).2
            rw [tagBody?, if_neg hc, ih hbody hprefix]
            rfl

theorem upToBracket_of_not_mem {s : List Char} (h : '>' ∉ s) : upToBracket s = (s, s.length) := by
  have htake : s.takeWhile (· ≠ '>') = s := by
    have hall : ∀ c ∈ s, decide (c ≠ '>') = true :=
      fun c hc => decide_eq_true fun he => h (he ▸ hc)
    have hstop : ∀ c, ([] : List Char).head? = some c → decide (c ≠ '>') = false := nofun
    have := takeWhile_append_stop hall hstop
    rwa [List.append_nil] at this
  rw [upToBracket, htake, Nat.min_eq_right (Nat.le_succ _)]

/-- A text has no bracket, or a first one. -/
theorem split_at_bracket (s : List Char) :
    '>' ∉ s ∨ ∃ body rest, s = body ++ '>' :: rest ∧ '>' ∉ body := by
  induction s with
  | nil => exact .inl List.not_mem_nil
  | cons c s ih =>
      by_cases hc : '>' = c
      · exact .inr ⟨[], s, by rw [hc, List.nil_append], List.not_mem_nil⟩
      · rcases ih with hs | ⟨body, rest, rfl, hbody⟩
        · exact .inl (List.not_mem_cons_of_ne_of_not_mem hc hs)
        · exact .inr ⟨c :: body, rest, rfl, List.not_mem_cons_of_ne_of_not_mem hc hbody⟩

theorem upToBracket_of_lt {s : List Char} (h : (upToBracket s).2 < s.length) :
    ∃ body rest, s = body ++ '>' :: rest ∧
      ∀ t, upToBracket (body ++ '>' :: t) = (body, body.length + 1) := by
  rcases split_at_bracket s with hs | ⟨body, rest, hs, hbody⟩
  · rw [upToBracket_of_not_mem hs] at h
    exact absurd h (Nat.lt_irrefl _)
  · exact ⟨body, rest, hs, upToBracket_append hbody⟩

theorem instruction?_of_lt {s : List Char} {t : Token} {n : Nat}
    (h : instruction? s = some (t, n)) (hn : n < s.length) :
    ∃ body rest, s = body ++ '>' :: rest ∧ n = body.length + 1 ∧
      ∀ u, instruction? (body ++ '>' :: u) = some (t, n) := by
  unfold instruction? at h
  dsimp only at h
  split at h
  · next hbody =>
    obtain ⟨rfl, rfl⟩ := Prod.mk.inj (Option.some.inj h)
    obtain ⟨body, rest, rfl, hread⟩ := upToBracket_of_lt hn
    rw [hread] at hbody ⊢
    refine ⟨body, rest, rfl, rfl, fun u => ?_⟩
    rw [instruction?, hread]
    exact if_pos hbody
  · cases h

/-- What stands before a bracket starts as the whole does, unless the bracket is the start. -/
theorem exists_body_cons {body rest s : List Char} {c : Char} (h : c :: s = body ++ '>' :: rest)
    (hc : c ≠ '>') : ∃ body', body = c :: body' ∧ s = body' ++ '>' :: rest := by
  cases body with
  | nil => exact absurd (List.cons.inj h).1 hc
  | cons c' body' =>
      obtain ⟨rfl, hs⟩ := List.cons.inj h
      exact ⟨body', rfl, hs⟩

theorem bind_upTo?_of_some {ends : List Char → Bool} {s : List Char} {t : Token} {n : Nat}
    {read : List Char → Option (Token × Nat)}
    (hread : ∀ body t n, read body = some (t, n) → n = body.length + 1)
    (h : (upTo? ends [] s).bind read = some (t, n)) :
    ∃ body rest, s = body ++ '>' :: rest ∧ n = body.length + 1 ∧
      ∀ u, (upTo? ends [] (body ++ '>' :: u)).bind read = some (t, n) := by
  obtain ⟨body, hbody, htoken⟩ := Option.bind_eq_some_iff.mp h
  obtain ⟨x, rest, rfl, hx, hagain⟩ := upTo?_eq_some hbody
  obtain rfl : body = x := hx
  exact ⟨body, rest, rfl, hread body t n htoken, fun u => by rw [hagain]; exact htoken⟩

theorem eq_of_ite_some {p : Prop} [Decidable p] {t t' : Token} {n n' : Nat}
    (h : (if p then some (t, n) else none) = some (t', n')) : n' = n := by
  split at h
  · cases h
    rfl
  · cases h

/-- A declaration ends with a bracket, and is read the same whatever comes after it. -/
theorem declaration?_of_some {s : List Char} {t : Token} {n : Nat}
    (h : declaration? s = some (t, n)) :
    ∃ body rest, s = body ++ '>' :: rest ∧ n = body.length + 1 ∧
      ∀ u, declaration? (body ++ '>' :: u) = some (t, n) := by
  unfold declaration? at h
  split at h
  · obtain ⟨body, rest, hs, hn, hread⟩ :=
      bind_upTo?_of_some (fun _ _ _ he => eq_of_ite_some he) h
    obtain ⟨x, rfl, hs'⟩ := exists_body_cons hs (by decide)
    obtain ⟨x, rfl, -⟩ := exists_body_cons hs' (by decide)
    exact ⟨_, rest, hs, hn, hread⟩
  · obtain ⟨body, rest, hs, hn, hread⟩ :=
      bind_upTo?_of_some (fun _ _ _ he => eq_of_ite_some he) h
    obtain ⟨x, rfl, hs'⟩ := exists_body_cons hs (by decide)
    obtain ⟨x, rfl, -⟩ := exists_body_cons hs' (by decide)
    exact ⟨_, rest, hs, hn, hread⟩
  · split at h
    · next hc =>
      obtain ⟨body, rest, hs, hn, hread⟩ :=
        bind_upTo?_of_some (fun _ _ _ he => eq_of_ite_some he) h
      obtain ⟨x, rfl, hs'⟩ := exists_body_cons hs (by decide)
      rcases hc with rfl | rfl
      · obtain ⟨x, rfl, -⟩ := exists_body_cons hs' (by decide)
        exact ⟨_, rest, hs, hn, hread⟩
      · obtain ⟨x, rfl, -⟩ := exists_body_cons hs' (by decide)
        exact ⟨_, rest, hs, hn, hread⟩
    · cases h
  · cases h

theorem tag?_of_some {s : List Char} {t : Token} {n : Nat} (h : tag? s = some (t, n)) :
    ∃ body rest, s = body ++ '>' :: rest ∧ n = body.length + 1 ∧
      ∀ u, tag? (body ++ '>' :: u) = some (t, n) := by
  unfold tag? at h
  obtain ⟨body, hbody, htoken⟩ := Option.bind_eq_some_iff.mp h
  obtain ⟨rest, rfl, hread⟩ := tagBody?_eq_some hbody
  refine ⟨body, rest, rfl, ?_, fun u => ?_⟩
  · dsimp only at htoken
    split at htoken <;> cases htoken <;> rfl
  · rw [tag?, hread]
    exact htoken

theorem token_of_declaration? {s : List Char} {t : Token} {n : Nat}
    (h : declaration? s = some (t, n)) :
    t = .comment ∨ (∃ content, t = .characters content) ∨ t = .documentType := by
  unfold declaration? at h
  split at h
  · obtain ⟨body, -, htoken⟩ := Option.bind_eq_some_iff.mp h
    split at htoken <;> cases htoken
    exact .inl rfl
  · obtain ⟨body, -, htoken⟩ := Option.bind_eq_some_iff.mp h
    split at htoken <;> cases htoken
    exact .inr (.inl ⟨_, rfl⟩)
  · split at h
    · obtain ⟨body, -, htoken⟩ := Option.bind_eq_some_iff.mp h
      split at htoken <;> cases htoken
      exact .inr (.inr rfl)
    · cases h
  · cases h

theorem token_of_instruction? {s : List Char} {t : Token} {n : Nat}
    (h : instruction? s = some (t, n)) : t = .instruction := by
  unfold instruction? at h
  dsimp only at h
  split at h <;> cases h
  rfl

theorem markup?_eq_tag? {c : Char} {s : List Char} (hmark : c ≠ '!') (hslash : c ≠ '/')
    (hask : c ≠ '?') : markup? (c :: s) = tag? (c :: s) := by
  unfold markup?
  split
  · next he => exact absurd (List.cons.inj he).1 hmark
  · next he => exact absurd (List.cons.inj he).1 hslash
  · next he => exact absurd (List.cons.inj he).1 hask
  · rfl

theorem markup?_slash (s : List Char) : markup? ('/' :: s) =
    some (.closing (closingName (upToBracket s).1), (upToBracket s).2 + 1) := rfl

/-- Markup is a declaration or an instruction, or a tag that closes an element, or it is read as a
tag, and so is everything that starts with the same character. -/
theorem markup?_cases {s : List Char} {t : Token} {n : Nat} (h : markup? s = some (t, n)) :
    (t = .comment ∨ (∃ content, t = .characters content) ∨ t = .documentType ∨
      t = .instruction) ∨
    (∃ s', s = '/' :: s' ∧ t = .closing (closingName (upToBracket s').1) ∧
      n = (upToBracket s').2 + 1) ∨
    (tag? s = some (t, n) ∧ ∀ s' : List Char, s'.head? = s.head? → markup? s' = tag? s') := by
  cases s with
  | nil => cases h
  | cons c s =>
    by_cases hmark : c = '!'
    · subst hmark
      refine .inl ?_
      obtain h | ⟨content, h⟩ | h := token_of_declaration? h
      · exact .inl h
      · exact .inr (.inl ⟨content, h⟩)
      · exact .inr (.inr (.inl h))
    by_cases hask : c = '?'
    · subst hask
      exact .inl (.inr (.inr (.inr (token_of_instruction? h))))
    by_cases hslash : c = '/'
    · subst hslash
      rw [markup?_slash] at h
      obtain ⟨rfl, rfl⟩ := Prod.mk.inj (Option.some.inj h)
      exact .inr (.inl ⟨s, rfl, rfl, rfl⟩)
    · refine .inr (.inr ⟨(markup?_eq_tag? hmark hslash hask).symm.trans h, fun s' hs' => ?_⟩)
      cases s' with
      | nil => cases hs'
      | cons c' s' =>
          obtain rfl : c' = c := Option.some.inj hs'
          exact markup?_eq_tag? hmark hslash hask

/-- Markup that ends before the text does ends with a bracket, and is read the same whatever comes
after the bracket. -/
theorem markup?_of_lt {s : List Char} {t : Token} {n : Nat} (h : markup? s = some (t, n))
    (hn : n < s.length) :
    ∃ body rest, s = body ++ '>' :: rest ∧ n = body.length + 1 ∧
      ∀ u, markup? (body ++ '>' :: u) = some (t, n) := by
  cases s with
  | nil => cases h
  | cons c s =>
    by_cases hmark : c = '!'
    · subst hmark
      obtain ⟨body, rest, hs, hlength, hread⟩ := declaration?_of_some h
      obtain ⟨x, rfl, -⟩ := exists_body_cons hs (by decide)
      exact ⟨_, rest, hs, hlength, hread⟩
    by_cases hask : c = '?'
    · subst hask
      obtain ⟨body, rest, hs, hlength, hread⟩ := instruction?_of_lt h hn
      obtain ⟨x, rfl, -⟩ := exists_body_cons hs (by decide)
      exact ⟨_, rest, hs, hlength, hread⟩
    by_cases hslash : c = '/'
    · subst hslash
      rw [markup?_slash] at h
      obtain ⟨rfl, rfl⟩ := Prod.mk.inj (Option.some.inj h)
      obtain ⟨body, rest, rfl, hread⟩ := upToBracket_of_lt (Nat.lt_of_succ_lt_succ hn)
      refine ⟨'/' :: body, rest, rfl, by rw [hread]; rfl, fun u => ?_⟩
      rw [List.cons_append, markup?_slash, hread, hread]
    · rw [markup?_eq_tag? hmark hslash hask] at h
      obtain ⟨body, rest, hs, hlength, hread⟩ := tag?_of_some h
      refine ⟨body, rest, hs, hlength, fun u => ?_⟩
      rw [← hread u]
      cases body with
      | nil => exact markup?_eq_tag? (by decide) (by decide) (by decide)
      | cons c' body =>
          obtain ⟨rfl, -⟩ := List.cons.inj hs
          exact markup?_eq_tag? hmark hslash hask

/-! ## Several tokens -/

/-- How the first lexeme of a text was read, and what of the text is left after it. -/
inductive FirstLexeme : List Char → Lexeme → List Char → Prop
  | markup {s : List Char} {t : Token} {n : Nat} (h : markup? s = some (t, n)) :
      FirstLexeme ('<' :: s) ⟨t, '<' :: s.take n⟩ (s.drop n)
  | text {s rest : List Char} (hne : s ≠ []) (hs : '<' ∉ s)
      (hrest : ∀ c, rest.head? = some c → c = '<') : FirstLexeme (s ++ rest) ⟨.text s, s⟩ rest

/-- A text reaches up to the next bracket that opens markup. -/
theorem FirstLexeme.of_text {c : Char} (hc : c ≠ '<') (s : List Char) :
    FirstLexeme (c :: s) ⟨.text (c :: s.takeWhile (· ≠ '<')), c :: s.takeWhile (· ≠ '<')⟩
      (s.drop (s.takeWhile (· ≠ '<')).length) := by
  have hdrop : s.drop (s.takeWhile (· ≠ '<')).length = s.dropWhile (· ≠ '<') := by
    have h : (s.takeWhile (· ≠ '<') ++ s.dropWhile (· ≠ '<')).drop
        (s.takeWhile (· ≠ '<')).length = s.dropWhile (· ≠ '<') := List.drop_left' rfl
    rwa [List.takeWhile_append_dropWhile] at h
  have hno : '<' ∉ c :: s.takeWhile (· ≠ '<') := by
    refine List.not_mem_cons_of_ne_of_not_mem (Ne.symm hc) fun hm => ?_
    have h := List.all_eq_true.mp List.all_takeWhile '<' hm
    simp at h
  have hnext : ∀ d, (s.dropWhile (· ≠ '<')).head? = some d → d = '<' := by
    intro d hd
    have h := List.head?_dropWhile_not (fun c => decide (c ≠ '<')) s
    rw [hd] at h
    simpa using h
  have htext := FirstLexeme.text (List.cons_ne_nil _ _) hno hnext
  rwa [List.cons_append, List.takeWhile_append_dropWhile, ← hdrop] at htext

theorem exists_firstLexeme {s : List Char} {l : Lexeme} {ls : List Lexeme}
    (h : (tokens s).lexemes = l :: ls) :
    ∃ rest, FirstLexeme s l rest ∧ (tokens rest).lexemes = ls := by
  cases s with
  | nil =>
      rw [tokens] at h
      cases h
  | cons c s =>
    rw [tokens] at h
    split at h
    · next hc =>
      subst hc
      split at h
      · cases h
      · split at h
        · cases h
        · next t n hmarkup =>
          obtain ⟨rfl, rfl⟩ := List.cons.inj h
          exact ⟨_, .markup hmarkup, rfl⟩
    · next hc =>
      obtain ⟨rfl, rfl⟩ := List.cons.inj h
      exact ⟨_, .of_text hc s, rfl⟩

namespace FirstLexeme

variable {s rest : List Char} {l : Lexeme}

theorem eq_append (h : FirstLexeme s l rest) : s = l.raw ++ rest := by
  cases h with
  | markup h => rw [List.cons_append, List.take_append_drop]
  | text hne hs hrest => rfl

theorem head?_raw (h : FirstLexeme s l rest) : l.raw.head? = s.head? := by
  cases h with
  | markup h => rfl
  | text hne hs hrest =>
      obtain ⟨c, s, rfl⟩ := List.exists_cons_of_ne_nil hne
      rfl

/-- A lexeme that more comes after is read again, as long as markup comes where markup came. -/
theorem tokens_append (h : FirstLexeme s l rest) (hrest : rest ≠ []) {u : List Char}
    (hu : rest.head? = some '<' → ∀ c, u.head? = some c → c = '<') :
    tokens (l.raw ++ u) = (tokens u).prepend [l] := by
  cases h with
  | @markup s t n h =>
      have hn : n < s.length := by
        by_contra hle
        exact hrest (List.drop_eq_nil_of_le (Nat.le_of_not_lt hle))
      obtain ⟨body, rest, rfl, rfl, hread⟩ := markup?_of_lt h hn
      have htake : (body ++ '>' :: rest).take (body.length + 1) = body ++ ['>'] := by
        rw [List.append_cons]
        exact List.take_left' (by simp)
      rw [htake]
      refine tokens_markup (by simp) ?_
      rw [List.append_assoc, List.singleton_append, hread u]
      simp
  | @text s rest hne hs hnext =>
      obtain ⟨c, rest, rfl⟩ := List.exists_cons_of_ne_nil hrest
      have hhead : (c :: rest).head? = some '<' := by rw [List.head?_cons, hnext c rfl]
      rw [tokens_text hs (hu hhead), Outline.textLexemes, if_neg hne]

end FirstLexeme

/-- A text starts with the characters of its first lexemes, and goes on with the other lexemes. -/
theorem exists_rest_of_tokens {s : List Char} {before ls : List Lexeme}
    (h : (tokens s).lexemes = before ++ ls) :
    ∃ rest, s = rawOf before ++ rest ∧ (tokens rest).lexemes = ls := by
  induction before generalizing s with
  | nil => exact ⟨s, rfl, h⟩
  | cons l before ih =>
      obtain ⟨rest, hfirst, hrest⟩ := exists_firstLexeme h
      obtain ⟨rest', rfl, hls⟩ := ih hrest
      refine ⟨rest', ?_, hls⟩
      rw [hfirst.eq_append, ← List.append_assoc]
      rfl

theorem head?_of_tokens {s : List Char} {l : Lexeme} {ls : List Lexeme}
    (h : (tokens s).lexemes = l :: ls) : l.raw.head? = s.head? := by
  obtain ⟨rest, hfirst, -⟩ := exists_firstLexeme h
  exact hfirst.head?_raw

/-- The first lexemes of a text are read again from their own characters where a tag comes after
them. -/
theorem tokens_span {s : List Char} {ls : List Lexeme} {l : Lexeme} {after : List Lexeme}
    (h : (tokens s).lexemes = ls ++ l :: after) {u : List Char}
    (hu : ∀ c, u.head? = some c → c = '<') :
    tokens (rawOf ls ++ u) = (tokens u).prepend ls := by
  induction ls generalizing s with
  | nil => rfl
  | cons l' ls ih =>
      obtain ⟨rest, hfirst, hrest⟩ := exists_firstLexeme h
      have hne : rest ≠ [] := by
        rintro rfl
        rw [tokens] at hrest
        exact List.append_ne_nil_of_right_ne_nil _ (List.cons_ne_nil _ _) hrest.symm
      have hnext : rest.head? = some '<' → ∀ c, (rawOf ls ++ u).head? = some c → c = '<' := by
        intro hhead c hc
        cases ls with
        | nil => exact hu c hc
        | cons l'' ls =>
            rw [rawOf, List.flatMap_cons, List.append_assoc, List.head?_append,
              head?_of_tokens hrest, hhead] at hc
            exact (Option.some.inj hc).symm
      have hshape : rawOf (l' :: ls) ++ u = l'.raw ++ (rawOf ls ++ u) := List.append_assoc ..
      rw [hshape, hfirst.tokens_append hne hnext, ih hrest]
      rfl

/-! ## Tags that fit -/

theorem nested_prefix (intact : Bool) (openNames : List (List Char)) (ls : List Lexeme) :
    (nested intact openNames ls).lexemes <+: ls := by
  induction ls generalizing openNames with
  | nil => exact List.prefix_refl _
  | cons l ls ih =>
      have hcons : ∀ names, ((nested intact names ls).cons l).lexemes <+: l :: ls :=
        fun names => List.cons_prefix_cons.mpr ⟨rfl, ih names⟩
      rw [nested]
      split
      · exact hcons _
      · split
        · exact List.nil_prefix
        · split
          · exact hcons _
          · exact List.nil_prefix
      · exact hcons _

/-- After some lexemes, the others are nested in the elements that are open then. -/
theorem exists_nested_of_append {intact : Bool} {openNames : List (List Char)}
    {before after ls : List Lexeme} (h : (nested intact openNames ls).lexemes = before ++ after) :
    ∃ openNames' rest, ls = before ++ rest ∧ (nested intact openNames' rest).lexemes = after := by
  induction before generalizing openNames ls with
  | nil => exact ⟨openNames, ls, rfl, h⟩
  | cons l before ih =>
    cases ls with
    | nil => cases h
    | cons l' ls =>
      have hnext : ∀ {names}, ((nested intact names ls).cons l').lexemes = l :: before ++ after →
          ∃ names' rest, l' :: ls = l :: before ++ rest ∧
            (nested intact names' rest).lexemes = after := by
        intro names hcons
        obtain ⟨rfl, hls⟩ := List.cons.inj hcons
        obtain ⟨names', rest, rfl, hrest⟩ := ih hls
        exact ⟨names', rest, rfl, hrest⟩
      rw [nested] at h
      split at h
      · exact hnext h
      · split at h
        · cases h
        · split at h
          · exact hnext h
          · cases h
      · exact hnext h

/-- A span does not reach further than the lexemes that it is found in. -/
theorem spanLength?_append {depth n : Nat} {ls : List Lexeme} (h : spanLength? depth ls = some n)
    (more : List Lexeme) : n ≤ ls.length ∧ spanLength? depth (ls ++ more) = some n := by
  induction ls generalizing depth n with
  | nil => cases h
  | cons l ls ih =>
      have hnext : ∀ {depth'}, (spanLength? depth' ls).map (· + 1) = some n →
          n ≤ (l :: ls).length ∧ (spanLength? depth' (ls ++ more)).map (· + 1) = some n := by
        intro depth' hmap
        obtain ⟨m, hm, rfl⟩ := Option.map_eq_some_iff.mp hmap
        obtain ⟨hle, hmore⟩ := ih hm
        exact ⟨Nat.succ_le_succ hle, by rw [hmore]; rfl⟩
      obtain ⟨token, raw⟩ := l
      cases token with
      | closing name =>
          cases depth with
          | zero =>
              obtain rfl := Option.some.inj h
              exact ⟨Nat.succ_le_succ (Nat.zero_le _), rfl⟩
          | succ depth => exact hnext h
      | opening _ _ | empty _ _ | text _ | characters _ | comment | instruction | documentType =>
          exact hnext h

/-- An element that is closed in a document is closed by its own name, and the tags between can be
read again inside of any other elements. The innermost of the open elements are `inner`, and the
element itself is around them. -/
theorem exists_nested_span {intact : Bool} {name : List Char} {outer inner : List (List Char)}
    {ls : List Lexeme} {n : Nat} (hspan : spanLength? inner.length ls = some n)
    (hpass : n ≤ (nested intact (inner ++ name :: outer) ls).lexemes.length) :
    ∃ (between : List Lexeme) (raw : List Char) (after : List Lexeme),
      ls = between ++ ⟨.closing name, raw⟩ :: after ∧ n = between.length + 1 ∧
      spanLength? inner.length between = none ∧
      ∀ (intact' : Bool) (outer' : List (List Char)) (after' : List Lexeme),
        nested intact' (inner ++ name :: outer') (between ++ after') =
          (nested intact' (name :: outer') after').prepend between := by
  induction ls generalizing inner n with
  | nil => cases hspan
  | cons l ls ih =>
      obtain ⟨token, raw⟩ := l
      -- What is said of the lexemes after this one, once it has been passed.
      have hnext : ∀ inner' : List (List Char),
          (∀ intact outer ls, nested intact (inner ++ name :: outer) (⟨token, raw⟩ :: ls) =
            (nested intact (inner' ++ name :: outer) ls).cons ⟨token, raw⟩) →
          (∀ ls, spanLength? inner.length (⟨token, raw⟩ :: ls) =
            (spanLength? inner'.length ls).map (· + 1)) →
          ∃ (between : List Lexeme) (raw' : List Char) (after : List Lexeme),
            ⟨token, raw⟩ :: ls = between ++ ⟨.closing name, raw'⟩ :: after ∧
            n = between.length + 1 ∧ spanLength? inner.length between = none ∧
            ∀ (intact' : Bool) (outer' : List (List Char)) (after' : List Lexeme),
              nested intact' (inner ++ name :: outer') (between ++ after') =
                (nested intact' (name :: outer') after').prepend between := by
        intro inner' hnested hlength
        rw [hlength] at hspan
        obtain ⟨m, hm, rfl⟩ := Option.map_eq_some_iff.mp hspan
        rw [hnested] at hpass
        obtain ⟨between, raw', after, rfl, rfl, hnone, hagain⟩ :=
          ih hm (Nat.le_of_succ_le_succ hpass)
        refine ⟨⟨token, raw⟩ :: between, raw', after, rfl, rfl, by rw [hlength, hnone]; rfl, ?_⟩
        intro intact' outer' after'
        rw [List.cons_append, hnested, hagain]
        rfl
      cases token with
      | opening name' attributes =>
          exact hnext (name' :: inner) (fun _ _ _ => rfl) (fun _ => rfl)
      | closing name' =>
          cases inner with
          | nil =>
              obtain rfl := Option.some.inj hspan
              by_cases hname : name = name'
              · subst hname
                exact ⟨[], raw, ls, rfl, rfl, rfl, fun _ _ _ => rfl⟩
              · rw [List.nil_append, nested] at hpass
                dsimp only at hpass
                rw [if_neg hname] at hpass
                exact absurd hpass (Nat.not_succ_le_zero 0)
          | cons top inner =>
              by_cases hname : top = name'
              · subst hname
                refine hnext inner (fun _ _ _ => ?_) (fun _ => rfl)
                rw [List.cons_append, nested]
                dsimp only
                rw [if_pos rfl]
              · rw [List.cons_append, nested] at hpass
                dsimp only at hpass
                rw [if_neg hname] at hpass
                obtain ⟨m, -, rfl⟩ := Option.map_eq_some_iff.mp hspan
                exact absurd hpass (Nat.not_succ_le_zero m)
      | empty _ _ | text _ | characters _ | comment | instruction | documentType =>
          exact hnext inner (fun _ _ _ => rfl) (fun _ => rfl)

/-! ## Elements that are found -/

/-- What an element is that is seen at a lexeme: the characters of this lexeme, which opens it, and
of those after it up to the one that closes it. -/
structure Sighted (wanted : List Char) (position : Nat) (l : Lexeme) (ls : List Lexeme)
    (e : Element) (n : Nat) : Prop where
  position_eq : e.position = position
  localName_eq : localName e.name = wanted
  raw_eq : e.raw = rawOf (l :: ls.take n)
  opened : (∃ attributes, l.token = .opening e.name attributes ∧ spanLength? 0 ls = some n) ∨
    ∃ attributes, l.token = .empty e.name attributes ∧ n = 0

theorem sighted_of_sight {wanted : List Char} {position : Nat} {l : Lexeme} {ls : List Lexeme}
    {e : Element} {n : Nat} (h : sight wanted position l ls = .element e n) :
    Sighted wanted position l ls e n := by
  unfold sight at h
  split at h
  · next name attributes htoken =>
    split at h
    · next hname =>
      split at h
      · cases h
      · next n' hspan =>
        cases h
        exact ⟨rfl, hname, rfl, .inl ⟨attributes, htoken, hspan⟩⟩
    · cases h
  · next name attributes htoken =>
    split at h
    · next hname =>
      cases h
      exact ⟨rfl, hname, (List.append_nil _).symm, .inr ⟨attributes, htoken, rfl⟩⟩
    · cases h
  · cases h

/-- An element that is found starts at a lexeme, and its position counts the bytes before it. -/
theorem exists_sighted_of_mem {wanted : List Char} {position : Nat} {ls : List Lexeme}
    {e : Element} (h : e ∈ (elementsFrom wanted position ls).1) :
    ∃ before l after n, ls = before ++ l :: after ∧
      Sighted wanted (position + Text.Utf8.size (rawOf before)) l after e n := by
  induction hlength : ls.length using Nat.strongRecOn generalizing ls position with
  | ind m ih =>
    cases ls with
    | nil =>
        rw [elementsFrom] at h
        cases h
    | cons l ls =>
      rw [elementsFrom] at h
      split at h
      · obtain ⟨before, l', after, n, rfl, hs⟩ := ih _ (hlength ▸ Nat.lt_succ_self _) h rfl
        refine ⟨l :: before, l', after, n, rfl, ?_⟩
        rwa [Nat.add_assoc, ← Text.Utf8.size_append] at hs
      · next e' n' hsight =>
        have hs' := sighted_of_sight hsight
        rcases List.mem_cons.mp h with rfl | h
        · exact ⟨[], l, ls, n', rfl, hs'⟩
        · have hlt : (ls.drop n').length < m := by
            rw [← hlength, List.length_drop]
            exact Nat.lt_succ_of_le (Nat.sub_le _ _)
          obtain ⟨before, l', after, n, hls, hs⟩ := ih _ hlt h rfl
          refine ⟨l :: ls.take n' ++ before, l', after, n, ?_, ?_⟩
          · rw [List.append_assoc, ← hls, List.cons_append, List.take_append_drop]
          · rw [Outline.rawOf_append, Text.Utf8.size_append, ← hs'.raw_eq, ← Nat.add_assoc]
            exact hs
      · cases h

/-! ## Elements that are not closed -/

theorem textOf_cases (pieces : List Piece) :
    textOf pieces = [] ∨ ∃ content, textOf pieces = [.text content] := by
  unfold textOf
  split
  · exact .inl rfl
  · exact .inr ⟨_, rfl⟩

theorem exists_close?_textOf (outer : List Frame) (f : Frame) (pieces : List Piece) :
    ∃ f', ∀ es, close? outer f (textOf pieces ++ es) = close? outer f' es := by
  rcases textOf_cases pieces with h | ⟨content, h⟩
  · exact ⟨f, fun es => by rw [h, List.nil_append]⟩
  · exact ⟨f.add (.text content), fun es => by rw [h, List.singleton_append, close?]⟩

/-- Where the end of an element is missing, there is none. -/
theorem close?_of_unclosed {outer : List Frame} {f : Frame} {pieces : List Piece}
    {ls : List Lexeme} (h : spanLength? outer.length ls = none) :
    close? outer f (eventsFrom pieces ls) = none := by
  induction ls generalizing outer f pieces with
  | nil =>
      obtain ⟨f', hf'⟩ := exists_close?_textOf outer f pieces
      have := hf' []
      rw [List.append_nil] at this
      exact this
  | cons l ls ih =>
      obtain ⟨token, raw⟩ := l
      obtain ⟨f', hf'⟩ := exists_close?_textOf outer f pieces
      cases token with
      | text s => exact ih (Option.map_eq_none_iff.mp h)
      | characters s => exact ih (Option.map_eq_none_iff.mp h)
      | comment => exact ih (Option.map_eq_none_iff.mp h)
      | instruction => exact ih (Option.map_eq_none_iff.mp h)
      | documentType =>
          rw [eventsFrom]
          dsimp only
          rw [hf']
          exact ih (Option.map_eq_none_iff.mp h)
      | opening name attributes =>
          rw [eventsFrom]
          dsimp only
          rw [hf']
          have h' : spanLength? (f' :: outer).length ls = none := Option.map_eq_none_iff.mp h
          exact ih h'
      | empty name attributes =>
          rw [eventsFrom]
          dsimp only
          rw [hf']
          exact ih (Option.map_eq_none_iff.mp h)
      | closing name =>
          rw [eventsFrom]
          dsimp only
          rw [hf']
          cases outer with
          | nil => cases h
          | cons g outer => exact ih (Option.map_eq_none_iff.mp h)

end Holdings.Xml
