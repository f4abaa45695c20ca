import Holdings.Text.Utf8
/-!
# Characters as bytes and back

What a text is written as is read as the text (`decodeLenient_encode`): the first byte of a
character promises as many bytes as follow it, and these are in the ranges that keep out overlong
forms and surrogates. The bytes of a character other than the ASCII ones are none of the bytes that
separate fields and end rows.

The other way round, what is read as a text was written as it, with no other bytes
(`decode?_eq_some_iff`). Any bytes can be cut before an ASCII byte and read in parts
(`decodeLenient_append`).
-/

namespace Holdings.Text.Utf8

/-! ## Following bytes -/

theorem toNat_ofNat {n : Nat} (h : n < 256) : (UInt8.ofNat n).toNat = n := by
  rw [UInt8.toNat_ofNat']
  exact Nat.mod_eq_of_lt h

theorem follow_cons {n m bits : Nat} {low high : UInt8} {bs : List UInt8} (hm : m < 256)
    (hlow : low.toNat ≤ m) (hhigh : m ≤ high.toNat) :
    follow (n + 1) low high bits (UInt8.ofNat m :: bs) =
      follow n 0x80 0xBF (bits * 64 + (m - 0x80)) bs := by
  rw [follow, toNat_ofNat hm, if_pos]
  rw [Bool.and_eq_true, decide_eq_true_eq, decide_eq_true_eq, UInt8.le_iff_toNat_le,
    UInt8.le_iff_toNat_le, toNat_ofNat hm]
  exact ⟨hlow, hhigh⟩

/-- A following byte after the first one, which brings six bits. -/
theorem follow_six {n x bits : Nat} {bs : List UInt8} :
    follow (n + 1) 0x80 0xBF bits (UInt8.ofNat (x % 64 + 128) :: bs) =
      follow n 0x80 0xBF (bits * 64 + x % 64) bs := by
  have hlow : (0x80 : UInt8).toNat = 128 := rfl
  have hhigh : (0xBF : UInt8).toNat = 191 := rfl
  rw [follow_cons (by omega) (by omega) (by omega), Nat.add_sub_cancel]

/-! ## First bytes -/

/-- The conditions on a first byte as conditions on its number. -/
theorem lead?_ofNat {n : Nat} (h : n < 256) : lead? (UInt8.ofNat n) =
    if n ≤ 0x7F then some ⟨0, 0x80, 0xBF, n⟩
    else if n < 0xC2 then none
    else if n ≤ 0xDF then some ⟨1, 0x80, 0xBF, n - 0xC0⟩
    else if n = 0xE0 then some ⟨2, 0xA0, 0xBF, 0⟩
    else if n = 0xED then some ⟨2, 0x80, 0x9F, 0xD⟩
    else if n ≤ 0xEF then some ⟨2, 0x80, 0xBF, n - 0xE0⟩
    else if n = 0xF0 then some ⟨3, 0x90, 0xBF, 0⟩
    else if n ≤ 0xF3 then some ⟨3, 0x80, 0xBF, n - 0xF0⟩
    else if n = 0xF4 then some ⟨3, 0x80, 0x8F, 4⟩
    else none := by
  have hn := toNat_ofNat h
  simp only [lead?, UInt8.le_iff_toNat_le, UInt8.lt_iff_toNat_lt, ← UInt8.toNat_inj, hn]
  rfl

theorem lead?_one {n : Nat} (h : n ≤ 0x7F) : lead? (UInt8.ofNat n) = some ⟨0, 0x80, 0xBF, n⟩ := by
  rw [lead?_ofNat (by omega), if_pos h]

theorem lead?_two {n : Nat} (h : 0xC2 ≤ n) (h' : n ≤ 0xDF) :
    lead? (UInt8.ofNat n) = some ⟨1, 0x80, 0xBF, n - 0xC0⟩ := by
  rw [lead?_ofNat (by omega), if_neg (by omega), if_neg (by omega), if_pos h']

/-- The first of three bytes: the range of the second one is narrower after the least of them,
against overlong forms, and after `ED`, against surrogates. -/
theorem lead?_three {n : Nat} (h : 0xE0 ≤ n) (h' : n ≤ 0xEF) :
    ∃ low high, lead? (UInt8.ofNat n) = some ⟨2, low, high, n - 0xE0⟩ ∧
      low.toNat = (if n = 0xE0 then 0xA0 else 0x80) ∧
      high.toNat = if n = 0xED then 0x9F else 0xBF := by
  rw [lead?_ofNat (by omega), if_neg (by omega), if_neg (by omega), if_neg (by omega)]
  by_cases h0 : n = 0xE0
  · subst h0
    exact ⟨_, _, rfl, rfl, rfl⟩
  · by_cases hD : n = 0xED
    · subst hD
      exact ⟨_, _, rfl, rfl, rfl⟩
    · rw [if_neg h0, if_neg hD, if_pos h', if_neg h0, if_neg hD]
      exact ⟨_, _, rfl, rfl, rfl⟩

/-- The first of four bytes: the range of the second one is narrower after the least of them,
against overlong forms, and after the greatest, against numbers past the last character. -/
theorem lead?_four {n : Nat} (h : 0xF0 ≤ n) (h' : n ≤ 0xF4) :
    ∃ low high, lead? (UInt8.ofNat n) = some ⟨3, low, high, n - 0xF0⟩ ∧
      low.toNat = (if n = 0xF0 then 0x90 else 0x80) ∧
      high.toNat = if n = 0xF4 then 0x8F else 0xBF := by
  rw [lead?_ofNat (by omega), if_neg (by omega), if_neg (by omega), if_neg (by omega),
    if_neg (by omega), if_neg (by omega), if_neg (by omega)]
  by_cases h0 : n = 0xF0
  · subst h0
    exact ⟨_, _, rfl, rfl, rfl⟩
  · by_cases h4 : n = 0xF4
    · subst h4
      exact ⟨_, _, rfl, rfl, rfl⟩
    · rw [if_neg h0, if_pos (by omega), if_neg h0, if_neg h4]
      exact ⟨_, _, rfl, rfl, rfl⟩

/-! ## Characters -/

theorem piece_of_lead {b : UInt8} {l : Lead} {bs rest : List UInt8} {v : Nat} {c : Char}
    (hl : lead? b = some l) (hf : follow l.tails l.low l.high l.bits bs = (some v, rest))
    (hv : c.toNat = v) : piece b bs = (some c, rest) := by
  rw [piece, hl]
  simp only [hf, Option.map_some, ← hv, Char.ofNat_toNat]

/-- A character is read back from its bytes, whatever comes after them. -/
theorem exists_piece_encodeChar (c : Char) (rest : List UInt8) :
    ∃ b bs, String.utf8EncodeChar c = b :: bs ∧ piece b (bs ++ rest) = (some c, rest) := by
  have hvalid : c.toNat < 0xD800 ∨ 0xDFFF < c.toNat ∧ c.toNat < 0x110000 := c.valid
  have hc : c.toNat = c.val.toNat := rfl
  simp only [String.utf8EncodeChar]
  generalize c.val.toNat = v at *
  split
  · next h =>
    exact ⟨_, [], rfl, piece_of_lead (lead?_one (by omega)) rfl hc⟩
  · split
    · next h =>
      refine ⟨_, _, rfl, piece_of_lead (lead?_two (by omega) (by omega)) ?_ hc⟩
      rw [List.cons_append, follow_six]
      have hv : (v / 64 % 32 + 192 - 0xC0) * 64 + v % 64 = v := by omega
      rw [hv]
      rfl
    · split
      · next h =>
        obtain ⟨low, high, hlead, hlow, hhigh⟩ :=
          lead?_three (n := v / 4096 % 16 + 224) (by omega) (by omega)
        refine ⟨_, _, rfl, piece_of_lead hlead ?_ hc⟩
        have hlow' : low.toNat ≤ v / 64 % 64 + 128 := by split at hlow <;> omega
        have hhigh' : v / 64 % 64 + 128 ≤ high.toNat := by split at hhigh <;> omega
        rw [List.cons_append, follow_cons (by omega) hlow' hhigh', List.cons_append, follow_six]
        have hv : ((v / 4096 % 16 + 224 - 0xE0) * 64 + (v / 64 % 64 + 128 - 0x80)) * 64 + v % 64 =
            v := by omega
        rw [hv]
        rfl
      · obtain ⟨low, high, hlead, hlow, hhigh⟩ :=
          lead?_four (n := v / 262144 % 8 + 240) (by omega) (by omega)
        refine ⟨_, _, rfl, piece_of_lead hlead ?_ hc⟩
        have hlow' : low.toNat ≤ v / 4096 % 64 + 128 := by split at hlow <;> omega
        have hhigh' : v / 4096 % 64 + 128 ≤ high.toNat := by split at hhigh <;> omega
        rw [List.cons_append, follow_cons (by omega) hlow' hhigh', List.cons_append, follow_six,
          List.cons_append, follow_six]
        have hv : (((v / 262144 % 8 + 240 - 0xF0) * 64 + (v / 4096 % 64 + 128 - 0x80)) * 64 +
            v / 64 % 64) * 64 + v % 64 = v := by omega
        rw [hv]
        rfl

/-! ## From bytes to characters -/

theorem eq_ofNat_toNat {b : UInt8} {n : Nat} (h : b.toNat = n) : UInt8.ofNat n = b := by
  rw [← h, UInt8.ofNat_toNat]

theorem eq_of_follow_zero {bits v : Nat} {low high : UInt8} {bs rest : List UInt8}
    (h : follow 0 low high bits bs = (some v, rest)) : v = bits ∧ rest = bs := by
  obtain ⟨hv, hrest⟩ := Prod.mk.inj h
  exact ⟨(Option.some.inj hv).symm, hrest.symm⟩

theorem follow_succ_eq_some {n bits v : Nat} {low high : UInt8} {bs rest : List UInt8}
    (h : follow (n + 1) low high bits bs = (some v, rest)) :
    ∃ b bs', bs = b :: bs' ∧ low.toNat ≤ b.toNat ∧ b.toNat ≤ high.toNat ∧
      follow n 0x80 0xBF (bits * 64 + (b.toNat - 0x80)) bs' = (some v, rest) := by
  cases bs with
  | nil => cases h
  | cons b bs =>
      rw [follow] at h
      split at h
      · next hb =>
        rw [Bool.and_eq_true, decide_eq_true_eq, decide_eq_true_eq, UInt8.le_iff_toNat_le,
          UInt8.le_iff_toNat_le] at hb
        exact ⟨b, bs, rfl, hb.1, hb.2, h⟩
      · cases h

/-- One of the following bytes after the first of them. -/
theorem follow_succ_eq_some_six {n bits v : Nat} {bs rest : List UInt8}
    (h : follow (n + 1) 0x80 0xBF bits bs = (some v, rest)) :
    ∃ b bs', bs = b :: bs' ∧ 128 ≤ b.toNat ∧ b.toNat ≤ 191 ∧
      follow n 0x80 0xBF (bits * 64 + (b.toNat - 0x80)) bs' = (some v, rest) :=
  follow_succ_eq_some h

section

theorem encodeChar_ofNat {v : Nat} (h : v < 0xD800 ∨ 0xDFFF < v ∧ v < 0x110000) :
    String.utf8EncodeChar (Char.ofNat v) =
      if v ≤ 127 then [UInt8.ofNat v]
      else if v ≤ 2047 then [UInt8.ofNat (v / 64 % 32 + 192), UInt8.ofNat (v % 64 + 128)]
      else if v ≤ 65535 then
        [UInt8.ofNat (v / 4096 % 16 + 224), UInt8.ofNat (v / 64 % 64 + 128),
          UInt8.ofNat (v % 64 + 128)]
      else
        [UInt8.ofNat (v / 262144 % 8 + 240), UInt8.ofNat (v / 4096 % 64 + 128),
          UInt8.ofNat (v / 64 % 64 + 128), UInt8.ofNat (v % 64 + 128)] := by
  have hv : (Char.ofNat v).val.toNat = v := by
    rw [Char.ofNat, dif_pos h]
    rfl
  simp only [String.utf8EncodeChar, hv]

variable {v : Nat} {b b1 b2 b3 : UInt8}

theorem encodeChar_one (hb : b.toNat = v) (h : v ≤ 127) :
    String.utf8EncodeChar (Char.ofNat v) = [b] := by
  rw [encodeChar_ofNat (by omega), if_pos h, eq_ofNat_toNat hb]

theorem encodeChar_two (hb : 0xC2 ≤ b.toNat) (hb' : b.toNat ≤ 0xDF) (h1 : 128 ≤ b1.toNat)
    (h1' : b1.toNat ≤ 191) :
    String.utf8EncodeChar (Char.ofNat ((b.toNat - 0xC0) * 64 + (b1.toNat - 128))) = [b, b1] := by
  rw [encodeChar_ofNat (by omega), if_neg (by omega), if_pos (by omega),
    eq_ofNat_toNat (b := b) (by omega), eq_ofNat_toNat (b := b1) (by omega)]

theorem encodeChar_three (hb : 0xE0 ≤ b.toNat) (hb' : b.toNat ≤ 0xEF)
    (hlow : 128 ≤ b1.toNat ∧ (b.toNat = 0xE0 → 160 ≤ b1.toNat))
    (hhigh : b1.toNat ≤ 191 ∧ (b.toNat = 0xED → b1.toNat ≤ 159)) (h2 : 128 ≤ b2.toNat)
    (h2' : b2.toNat ≤ 191) :
    String.utf8EncodeChar (Char.ofNat (((b.toNat - 0xE0) * 64 + (b1.toNat - 128)) * 64 +
      (b2.toNat - 128))) = [b, b1, b2] := by
  rw [encodeChar_ofNat (by omega), if_neg (by omega), if_neg (by omega), if_pos (by omega),
    eq_ofNat_toNat (b := b) (by omega), eq_ofNat_toNat (b := b1) (by omega),
    eq_ofNat_toNat (b := b2) (by omega)]

theorem encodeChar_four (hb : 0xF0 ≤ b.toNat) (hb' : b.toNat ≤ 0xF4)
    (hlow : 128 ≤ b1.toNat ∧ (b.toNat = 0xF0 → 144 ≤ b1.toNat))
    (hhigh : b1.toNat ≤ 191 ∧ (b.toNat = 0xF4 → b1.toNat ≤ 143)) (h2 : 128 ≤ b2.toNat)
    (h2' : b2.toNat ≤ 191) (h3 : 128 ≤ b3.toNat) (h3' : b3.toNat ≤ 191) :
    String.utf8EncodeChar (Char.ofNat ((((b.toNat - 0xF0) * 64 + (b1.toNat - 128)) * 64 +
      (b2.toNat - 128)) * 64 + (b3.toNat - 128))) = [b, b1, b2, b3] := by
  rw [encodeChar_ofNat (by omega), if_neg (by omega), if_neg (by omega), if_neg (by omega),
    eq_ofNat_toNat (b := b) (by omega), eq_ofNat_toNat (b := b1) (by omega),
    eq_ofNat_toNat (b := b2) (by omega), eq_ofNat_toNat (b := b3) (by omega)]

end

/-- What a first byte promises, by how many bytes follow. -/
theorem cases_of_lead {b : UInt8} {l : Lead} (h : lead? b = some l) :
    (b.toNat ≤ 0x7F ∧ l = ⟨0, 0x80, 0xBF, b.toNat⟩) ∨
    (0xC2 ≤ b.toNat ∧ b.toNat ≤ 0xDF ∧ l = ⟨1, 0x80, 0xBF, b.toNat - 0xC0⟩) ∨
    (0xE0 ≤ b.toNat ∧ b.toNat ≤ 0xEF ∧ ∃ low high, l = ⟨2, low, high, b.toNat - 0xE0⟩ ∧
      low.toNat = (if b.toNat = 0xE0 then 0xA0 else 0x80) ∧
      high.toNat = if b.toNat = 0xED then 0x9F else 0xBF) ∨
    (0xF0 ≤ b.toNat ∧ b.toNat ≤ 0xF4 ∧ ∃ low high, l = ⟨3, low, high, b.toNat - 0xF0⟩ ∧
      low.toNat = (if b.toNat = 0xF0 then 0x90 else 0x80) ∧
      high.toNat = if b.toNat = 0xF4 then 0x8F else 0xBF) := by
  have hlead := lead?_ofNat b.toNat_lt
  rw [eq_ofNat_toNat rfl, h] at hlead
  by_cases h1 : b.toNat ≤ 0x7F
  · rw [if_pos h1] at hlead
    exact .inl ⟨h1, Option.some.inj hlead⟩
  by_cases h2 : b.toNat < 0xC2
  · rw [if_neg h1, if_pos h2] at hlead
    cases hlead
  by_cases h3 : b.toNat ≤ 0xDF
  · rw [if_neg h1, if_neg h2, if_pos h3] at hlead
    exact .inr (.inl ⟨by omega, h3, Option.some.inj hlead⟩)
  by_cases h4 : b.toNat ≤ 0xEF
  · obtain ⟨low, high, hthree, hlow, hhigh⟩ := lead?_three (n := b.toNat) (by omega) h4
    rw [eq_ofNat_toNat rfl, h] at hthree
    exact .inr (.inr (.inl ⟨by omega, h4, low, high, Option.some.inj hthree, hlow, hhigh⟩))
  by_cases h5 : b.toNat ≤ 0xF4
  · obtain ⟨low, high, hfour, hlow, hhigh⟩ := lead?_four (n := b.toNat) (by omega) h5
    rw [eq_ofNat_toNat rfl, h] at hfour
    exact .inr (.inr (.inr ⟨by omega, h5, low, high, Option.some.inj hfour, hlow, hhigh⟩))
  · rw [if_neg h1, if_neg h2, if_neg h3, if_neg (by omega), if_neg (by omega), if_neg h4,
      if_neg (by omega), if_neg (by omega), if_neg (by omega)] at hlead
    cases hlead

theorem exists_follow_of_piece {b : UInt8} {bs rest : List UInt8} {c : Char}
    (h : piece b bs = (some c, rest)) :
    ∃ l v, lead? b = some l ∧ follow l.tails l.low l.high l.bits bs = (some v, rest) ∧
      c = Char.ofNat v := by
  unfold piece at h
  split at h
  · cases h
  · next l hl =>
    cases hf : follow l.tails l.low l.high l.bits bs with
    | mk o rest' =>
      rw [hf] at h
      cases o with
      | none => cases h
      | some v =>
          cases h
          exact ⟨l, v, hl, hf, rfl⟩

/-- A character that is read from some bytes is written as these bytes. -/
theorem eq_encodeChar_of_piece {b : UInt8} {bs rest : List UInt8} {c : Char}
    (h : piece b bs = (some c, rest)) : b :: bs = String.utf8EncodeChar c ++ rest := by
  obtain ⟨l, v, hl, hf, rfl⟩ := exists_follow_of_piece h
  rcases cases_of_lead hl with ⟨hb, rfl⟩ | ⟨hb, hb', rfl⟩ |
    ⟨hb, hb', low, high, rfl, hlow, hhigh⟩ | ⟨hb, hb', low, high, rfl, hlow, hhigh⟩
  all_goals dsimp only at hf
  · obtain ⟨hv, hrest⟩ := eq_of_follow_zero hf
    rw [hv, hrest, encodeChar_one rfl hb]
    rfl
  · obtain ⟨b1, bs, rfl, h1, h1', hf⟩ := follow_succ_eq_some_six hf
    obtain ⟨hv, hrest⟩ := eq_of_follow_zero hf
    rw [hv, hrest, encodeChar_two hb hb' h1 h1']
    rfl
  · obtain ⟨b1, bs, rfl, h1, h1', hf⟩ := follow_succ_eq_some hf
    obtain ⟨b2, bs, rfl, h2, h2', hf⟩ := follow_succ_eq_some_six hf
    obtain ⟨hv, hrest⟩ := eq_of_follow_zero hf
    have hlow' : 128 ≤ b1.toNat ∧ (b.toNat = 0xE0 → 160 ≤ b1.toNat) := by
      split at hlow <;> omega
    have hhigh' : b1.toNat ≤ 191 ∧ (b.toNat = 0xED → b1.toNat ≤ 159) := by
      split at hhigh <;> omega
    rw [hv, hrest, encodeChar_three hb hb' hlow' hhigh' h2 h2']
    rfl
  · obtain ⟨b1, bs, rfl, h1, h1', hf⟩ := follow_succ_eq_some hf
    obtain ⟨b2, bs, rfl, h2, h2', hf⟩ := follow_succ_eq_some_six hf
    obtain ⟨b3, bs, rfl, h3, h3', hf⟩ := follow_succ_eq_some_six hf
    obtain ⟨hv, hrest⟩ := eq_of_follow_zero hf
    have hlow' : 128 ≤ b1.toNat ∧ (b.toNat = 0xF0 → 144 ≤ b1.toNat) := by
      split at hlow <;> omega
    have hhigh' : b1.toNat ≤ 191 ∧ (b.toNat = 0xF4 → b1.toNat ≤ 143) := by
      split at hhigh <;> omega
    rw [hv, hrest, encodeChar_four hb hb' hlow' hhigh' h2 h2' h3 h3']
    rfl

/-! ## Texts -/

@[simp] theorem encode_nil : encode [] = [] := rfl

theorem encode_cons (c : Char) (s : List Char) :
    encode (c :: s) = String.utf8EncodeChar c ++ encode s := rfl

theorem encode_append (s t : List Char) : encode (s ++ t) = encode s ++ encode t :=
  List.flatMap_append

theorem pieces_encode_append (s : List Char) (rest : List UInt8) :
    pieces (encode s ++ rest) = s.map some ++ pieces rest := by
  induction s with
  | nil => rfl
  | cons c s ih =>
      obtain ⟨b, bs, hbytes, hpiece⟩ := exists_piece_encodeChar c (encode s ++ rest)
      rw [encode_cons, hbytes, List.append_assoc, List.cons_append, pieces, hpiece, ih]
      rfl

theorem pieces_encode (s : List Char) : pieces (encode s) = s.map some := by
  have h := pieces_encode_append s []
  rw [List.append_nil] at h
  rw [h, pieces, List.append_nil]

/-- What a text is written as is read as the text. -/
@[simp] theorem decodeLenient_encode (s : List Char) : decodeLenient (encode s) = s := by
  rw [decodeLenient, pieces_encode, List.map_map]
  exact List.map_id s

theorem decodeLenient_encode_append (s : List Char) (rest : List UInt8) :
    decodeLenient (encode s ++ rest) = s ++ decodeLenient rest := by
  rw [decodeLenient, pieces_encode_append, List.map_append, List.map_map]
  exact congrArg (· ++ decodeLenient rest) (List.map_id s)

theorem eq_map_some_of_whole {ps : List (Option Char)} {s : List Char} (h : whole ps = some s) :
    ps = s.map some := by
  induction ps generalizing s with
  | nil =>
      cases h
      rfl
  | cons p ps ih =>
      cases p with
      | none => cases h
      | some c =>
          obtain ⟨s', hs', rfl⟩ := Option.map_eq_some_iff.mp h
          rw [ih hs']
          rfl

theorem eq_encode_of_pieces {bs : List UInt8} {s : List Char} (h : pieces bs = s.map some) :
    bs = encode s := by
  induction hn : bs.length using Nat.strongRecOn generalizing bs s with
  | ind n ih =>
    cases bs with
    | nil =>
        rw [pieces] at h
        rw [List.map_eq_nil_iff.mp h.symm]
        rfl
    | cons b bs =>
        rw [pieces] at h
        obtain ⟨c, s, rfl, hc, hs⟩ := List.map_eq_cons_iff.mp h.symm
        have hpiece : piece b bs = (some c, (piece b bs).2) := Prod.ext hc.symm rfl
        have hrest := ih _ (hn ▸ Nat.lt_succ_of_le (length_piece_le b bs)) hs.symm rfl
        rw [eq_encodeChar_of_piece hpiece, encode_cons, ← hrest]

/-- A text that is read strictly was written as the bytes. -/
theorem decode?_eq_some_iff {bs : List UInt8} {s : List Char} :
    decode? bs = some s ↔ bs = encode s := by
  constructor
  · intro h
    exact eq_encode_of_pieces (eq_map_some_of_whole h)
  · rintro rfl
    rw [decode?, pieces_encode]
    induction s with
    | nil => rfl
    | cons c s ih => rw [List.map_cons, whole, ih]; rfl

/-- A character that is read first is what the bytes start with, if it is not the one that stands
for broken pieces. -/
theorem encode_prefix_of_head? {bs : List UInt8} {c : Char} (hc : c ≠ '\uFFFD')
    (h : (decodeLenient bs).head? = some c) : encode [c] <+: bs := by
  cases bs with
  | nil =>
      rw [decodeLenient, pieces] at h
      cases h
  | cons b bs =>
      rw [decodeLenient, pieces, List.map_cons, List.head?_cons] at h
      have hfirst : (piece b bs).1.getD '\uFFFD' = c := Option.some.inj h
      cases hpiece : (piece b bs).1 with
      | none =>
          rw [hpiece] at hfirst
          exact absurd hfirst.symm hc
      | some c' =>
          rw [hpiece] at hfirst
          obtain rfl : c' = c := hfirst
          have hbytes := eq_encodeChar_of_piece (Prod.ext hpiece rfl : piece b bs = (_, _))
          exact ⟨(piece b bs).2, by rw [encode_cons, encode_nil, List.append_nil, ← hbytes]⟩

/-! ## Single bytes -/

/-- An ASCII byte stands for a character of its number, and only there. -/
theorem mem_encodeChar_ascii {c : Char} {b : UInt8} (hb : b.toNat ≤ 0x7F)
    (h : b ∈ String.utf8EncodeChar c) : c.toNat = b.toNat := by
  have hc : c.val.toNat = c.toNat := rfl
  simp only [String.utf8EncodeChar, hc] at h
  split at h
  · rw [List.mem_singleton] at h
    rw [h, toNat_ofNat (by omega)]
  · exfalso
    have hbyte : ∀ n, 0x80 ≤ n → n < 256 → b ≠ UInt8.ofNat n := by
      intro n hn hn' he
      rw [he, toNat_ofNat hn'] at hb
      omega
    split at h
    · simp only [List.mem_cons, List.not_mem_nil, or_false] at h
      rcases h with h | h <;> exact hbyte _ (by omega) (by omega) h
    · split at h
      · simp only [List.mem_cons, List.not_mem_nil, or_false] at h
        rcases h with h | h | h <;> exact hbyte _ (by omega) (by omega) h
      · simp only [List.mem_cons, List.not_mem_nil, or_false] at h
        rcases h with h | h | h | h <;> exact hbyte _ (by omega) (by omega) h

theorem mem_encode_ascii {s : List Char} {b : UInt8} (hb : b.toNat ≤ 0x7F)
    (h : b ∈ encode s) : ∃ c ∈ s, c.toNat = b.toNat := by
  obtain ⟨c, hc, hmem⟩ := List.mem_flatMap.mp h
  exact ⟨c, hc, mem_encodeChar_ascii hb hmem⟩

theorem encode_ne_nil {s : List Char} (h : s ≠ []) : encode s ≠ [] := by
  cases s with
  | nil => exact absurd rfl h
  | cons c s =>
      obtain ⟨b, bs, hbytes, -⟩ := exists_piece_encodeChar c []
      rw [encode_cons, hbytes]
      exact List.cons_ne_nil _ _

/-! ## Sizes -/

theorem size_append (s t : List Char) : size (s ++ t) = size s + size t := by
  rw [size, encode_append, List.length_append]
  rfl

theorem length_le_size (s : List Char) : s.length ≤ size s := by
  induction s with
  | nil => exact Nat.le_refl _
  | cons c s ih =>
      have hc : 0 < (encode [c]).length :=
        List.length_pos_iff.mpr (encode_ne_nil (List.cons_ne_nil c []))
      have hsplit : size (c :: s) = (encode [c]).length + size s := size_append [c] s
      rw [List.length_cons, hsplit]
      omega

/-- Of two beginnings of one text, the one with fewer bytes is the beginning of the other. -/
theorem exists_of_size_le {s t u v : List Char} (h : s ++ t = u ++ v) (hsize : size s ≤ size u) :
    ∃ between, u = s ++ between ∧ t = between ++ v := by
  rcases List.append_eq_append_iff.mp h with ⟨between, hu, ht⟩ | ⟨more, hs, hv⟩
  · exact ⟨between, hu, ht⟩
  · have hmore : more = [] := by
      rw [hs, size_append] at hsize
      have := length_le_size more
      exact List.eq_nil_of_length_eq_zero (by omega)
    subst hmore
    exact ⟨[], by rw [hs, List.append_nil, List.append_nil], hv.symm⟩

/-! ## Cuts between characters -/

/-- The bytes of a text start with the first byte of a character. -/
theorem isUTF8FirstByte_head {s : List Char} {b : UInt8} (h : (encode s).head? = some b) :
    b.IsUTF8FirstByte := by
  cases s with
  | nil => cases h
  | cons c s =>
      have hpos : 0 < (String.utf8EncodeChar c).length := by
        rw [String.length_utf8EncodeChar]
        exact c.utf8Size_pos
      have hfirst : (encode (c :: s)).head? = some (String.utf8EncodeChar c)[0] := by
        rw [encode_cons, List.head?_append, List.head?_eq_getElem?, List.getElem?_eq_getElem hpos]
        rfl
      rw [hfirst] at h
      exact Option.some.inj h ▸ UInt8.isUTF8FirstByte_getElem_utf8EncodeChar.mpr rfl

/-- Where the bytes of a text are cut before the first byte of a character, or at their end, the
text is cut too. -/
theorem exists_of_encode_eq_append {s : List Char} {bs cs : List UInt8}
    (h : encode s = bs ++ cs) (hcs : ∀ b, cs.head? = some b → b.IsUTF8FirstByte) :
    ∃ t u, s = t ++ u ∧ encode t = bs ∧ encode u = cs := by
  induction s generalizing bs with
  | nil =>
      obtain ⟨rfl, rfl⟩ := List.append_eq_nil_iff.mp h.symm
      exact ⟨[], [], rfl, rfl, rfl⟩
  | cons c s ih =>
      rw [encode_cons] at h
      rcases List.append_eq_append_iff.mp h with ⟨bs', rfl, hs⟩ | ⟨ds, hc, hs⟩
      · obtain ⟨t, u, rfl, rfl, rfl⟩ := ih hs
        exact ⟨c :: t, u, rfl, rfl, rfl⟩
      · cases ds with
        | nil =>
            rw [List.append_nil] at hc
            exact ⟨[c], s, rfl, (List.append_nil _).trans hc, hs.symm⟩
        | cons d ds =>
            -- The cut falls inside of `c`, unless it stands at its start.
            have hlength : bs.length < (String.utf8EncodeChar c).length := by
              rw [hc, List.length_append, List.length_cons]
              omega
            have hd : (String.utf8EncodeChar c)[bs.length] = d := by
              simp only [hc, List.getElem_append_right (Nat.le_refl _), Nat.sub_self,
                List.getElem_cons_zero]
            have hfirst : (String.utf8EncodeChar c)[bs.length].IsUTF8FirstByte :=
              hd.symm ▸ hcs d (by rw [hs]; rfl)
            have hzero := UInt8.isUTF8FirstByte_getElem_utf8EncodeChar.mp hfirst
            obtain rfl := List.eq_nil_of_length_eq_zero hzero
            exact ⟨[], c :: s, rfl, rfl, h⟩

/-- A text inside of the bytes of another one is a part of it. -/
theorem exists_of_encode_eq {s t : List Char} {bs cs : List UInt8} (ht : t ≠ [])
    (h : encode s = bs ++ (encode t ++ cs)) :
    ∃ front back, s = front ++ (t ++ back) ∧ encode front = bs := by
  have hne : encode t ≠ [] :=
    List.ne_nil_of_length_pos
      (Nat.lt_of_lt_of_le (List.length_pos_iff.mpr ht) (length_le_size t))
  obtain ⟨d, ds, hd⟩ := List.exists_cons_of_ne_nil hne
  have hhead : (encode t).head? = some d := by rw [hd, List.head?_cons]
  have hfirst : ∀ b, (encode t ++ cs).head? = some b → b.IsUTF8FirstByte := by
    intro b hb
    rw [List.head?_append, hhead, Option.some_or] at hb
    exact isUTF8FirstByte_head (hhead.trans hb)
  obtain ⟨front, u, rfl, hfront, hu⟩ := exists_of_encode_eq_append h hfirst
  refine ⟨front, decodeLenient cs, ?_, hfront⟩
  rw [← decodeLenient_encode u, hu, decodeLenient_encode_append]

/-! ## Cuts before a byte that is a character

A byte that is a character by itself goes on with nothing that came before it, be it broken or
not. -/

theorem low_of_lead {b : UInt8} {l : Lead} (h : lead? b = some l) : 0x80 ≤ l.low.toNat := by
  rcases cases_of_lead h with ⟨-, rfl⟩ | ⟨-, -, rfl⟩ | ⟨-, -, low, high, rfl, hlow, -⟩ |
    ⟨-, -, low, high, rfl, hlow, -⟩
  · exact Nat.le_refl _
  · exact Nat.le_refl _
  · dsimp only
    split at hlow <;> omega
  · dsimp only
    split at hlow <;> omega

section

variable {b : UInt8} (hb : b.toNat ≤ 0x7F)

include hb

theorem follow_append (n : Nat) {low : UInt8} (hlow : 0x80 ≤ low.toNat) (high : UInt8) (bits : Nat)
    (bs rest : List UInt8) :
    follow n low high bits (bs ++ b :: rest) =
      ((follow n low high bits bs).1, (follow n low high bits bs).2 ++ b :: rest) := by
  induction n generalizing low high bits bs with
  | zero => rfl
  | succ n ih =>
      cases bs with
      | nil =>
          have hout : ¬ (low ≤ b && b ≤ high) = true := by
            rw [Bool.and_eq_true, decide_eq_true_eq, UInt8.le_iff_toNat_le]
            omega
          exact if_neg hout
      | cons c bs =>
          rw [List.cons_append, follow, follow]
          split
          · exact ih (Nat.le_refl _) 0xBF _ bs
          · rfl

theorem piece_append (c : UInt8) (bs rest : List UInt8) :
    piece c (bs ++ b :: rest) = ((piece c bs).1, (piece c bs).2 ++ b :: rest) := by
  unfold piece
  split
  · rfl
  · next l hl => rw [follow_append hb l.tails (low_of_lead hl)]

theorem pieces_append (bs rest : List UInt8) :
    pieces (bs ++ b :: rest) = pieces bs ++ pieces (b :: rest) := by
  induction hn : bs.length using Nat.strongRecOn generalizing bs with
  | ind n ih =>
    cases bs with
    | nil => rw [List.nil_append, pieces.eq_1, List.nil_append]
    | cons c bs =>
      have hlt : (piece c bs).2.length < n := hn ▸ Nat.lt_succ_of_le (length_piece_le c bs)
      rw [List.cons_append, pieces, pieces, piece_append hb, ih _ hlt _ rfl, List.cons_append]

theorem decodeLenient_append (bs rest : List UInt8) :
    decodeLenient (bs ++ b :: rest) = decodeLenient bs ++ decodeLenient (b :: rest) := by
  rw [decodeLenient, pieces_append hb, List.map_append]
  rfl

end

end Holdings.Text.Utf8
